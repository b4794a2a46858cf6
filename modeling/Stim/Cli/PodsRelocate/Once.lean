import Stim.Cli.PodsRelocate.Rewriting

/-!
# Relocated Pods are rewritten completely and once

Between runs the tree is as `Inv` says: without `Manifest.lock`, under a `Manifest.lock` that
differs, relocated, or as it was cloned.  Only a tree that no run has changed has a `Manifest.lock`
that matches and names the source checkout.
-/

namespace Stim.PodsRelocate

open CutSection CutSection.Section

variable {host : Host} {roots : Roots} {original pods : Pods} {podfileLock : Option Bytes}

variable (host roots original podfileLock) in
inductive Inv (pods : Pods) (touched : Bool) : Prop where
  | gone (hManifest : pods.get manifestPath = none)
  | differs (hMatch : locksMatch podfileLock pods = false)
      (hManifest : pods.get manifestPath = original.get manifestPath)
      (hKept : ∀ path, path ≠ manifestPath → Kept host roots original path (pods.get path))
  | relocated (hRelocated : Relocated host roots original pods)
      (hManifest : ∃ lock ∈ podfileLock,
        pods.get manifestPath = some (.file (Utf8.encode (Utf8.decode lock))))
  | cloned (hSame : pods = original) (hTouched : touched = false)

theorem locksMatch_eq {lock manifest : Bytes}
    (hManifest : pods.get manifestPath = some (.file manifest)) :
    locksMatch (some lock) pods =
      decide (normalize (Utf8.decode lock) = normalize (Utf8.decode manifest)) := by
  simp only [locksMatch, hManifest]

/-- A search that finds something lets a run over matching locks go on. -/
theorem rewrites_matching {going : Going} {lock manifest : Bytes}
    (hManifest : pods.get manifestPath = some (.file manifest)) (hCan : going.canRelocate = true)
    (hEqual : normalize (Utf8.decode lock) = normalize (Utf8.decode manifest))
    {e : Path × Entry} (hMem : e ∈ pods.entries) (hFound : found host roots e.2 = true) :
    rewrites host roots going (some lock) pods = true := by
  simp only [rewrites, hManifest, hCan, Bool.true_and]
  refine (if_pos hEqual).trans ?_
  exact List.any_eq_true.mpr ⟨e, hMem, hFound⟩

/-- A plan lets a run over differing locks go on. -/
theorem rewrites_differing {going : Going} {lock manifest : Bytes}
    (hManifest : pods.get manifestPath = some (.file manifest)) (hCan : going.canRelocate = true)
    (hDiffer : ¬ normalize (Utf8.decode lock) = normalize (Utf8.decode manifest))
    {names : List Text}
    (hPlan : planPodsRelocation host (Utf8.decode lock) (Utf8.decode manifest) roots.source
      (readPodspec going pods) = .ok names) :
    rewrites host roots going (some lock) pods = true := by
  simp only [rewrites, hManifest, hCan, Bool.true_and]
  refine (if_neg hDiffer).trans ?_
  rw [hPlan]

theorem Relocated.not_found (h : Relocated host roots original pods) {e : Path × Entry}
    (hMem : e ∈ pods.entries) : found host roots e.2 = false := by
  have hNamed := h.named e.1 e.2 (OrderedMap.get_eq_some_iff.mpr hMem)
  obtain ⟨path, entry⟩ := e
  cases entry with
  | directory => rfl
  | link target => exact hNamed
  | file content =>
      rw [namesSource, Bool.or_eq_false_iff] at hNamed
      exact hNamed.1

/-- A cloned tree in which the search for the path finds nothing needs no rewriting. -/
theorem relocated_of_not_found (hCloned : Cloned host roots original)
    (hFound : ∀ path entry, original.get path = some entry → found host roots entry = false)
    (hVisible : ∀ path content, original.get path = some (.file content) →
      Visible host roots content) : Relocated host roots original original := by
  have hText : ∀ path content, original.get path = some (.file content) →
      isText content = true → textNamesSource host roots (Utf8.decode content) = false := by
    intro path content hContent hText
    by_contra hNames
    rw [Bool.not_eq_false] at hNames
    have hBytes := hVisible path content hContent hText hNames
    rw [show bytesNameSource host roots content = false from hFound path _ hContent] at hBytes
    cases hBytes
  -- what names the target nowhere reads the same without it
  have hPlain : ∀ text, (pathPattern host roots.target).test text = false →
      textNamesSource host roots text = false →
      relocatePath host text roots.source roots.target = text := by
    intro text hTarget hSource
    refine Delimited.replaceAll_of_not_test _ ?_
    unfold textNamesSource sourceNamer at hSource
    dsimp only [id] at hSource
    rw [Delimited.replaceAll_of_not_test [] hTarget, ite_self] at hSource
    exact hSource
  refine ⟨?_, ?_, ?_⟩
  · intro path entry hEntry
    cases entry with
    | directory => rfl
    | link target => exact hFound path _ hEntry
    | file content =>
        rw [namesSource, Bool.or_eq_false_iff, Bool.and_eq_false_iff]
        refine ⟨hFound path _ hEntry, ?_⟩
        cases hIs : isText content with
        | false => exact .inl rfl
        | true => exact .inr (hText path content hEntry hIs)
  · intro path content _ hContent hIs
    have hTarget := hCloned.target path _ hContent
    rw [namesTarget, hIs, Bool.true_and, Bool.or_eq_false_iff] at hTarget
    exact ⟨content, hContent, (hPlain _ hTarget.2 (hText path content hContent hIs)).symm, .inl rfl⟩
  · intro path target hTarget
    rw [hPlain target (hCloned.target path _ hTarget) (hFound path _ hTarget)]
    exact hTarget

section Run

variable {a : After} {run : Run} {s : Store}

/-- The rewriting of the tree as it was cloned, without its `Manifest.lock`. -/
theorem runs_rewrite_cloned (hCloned : Cloned host roots original) {lock : Bytes}
    (hVisible : ∀ path content, original.get path = some (.file content) →
      Visible host roots (if isGenerated path then once host roots content else content))
    (hLegible : ∀ path content, isGenerated path = true →
      original.get path = some (.file content) → Legible host roots content)
    (hLock : namesSource host roots (.file (Utf8.encode (Utf8.decode lock))) = false)
    (hPods : s.pods = original.delete manifestPath) (names : List Text) :
    Runs (Inv host roots original (some lock))
      (rewrite host roots run.listing (Utf8.decode lock) names) s fun _ pods touched =>
        Inv host roots original (some lock) pods touched ∧
          (locksMatch (some lock) pods = true → Relocated host roots original pods) := by
  have hOther : ∀ path, path ≠ manifestPath → s.pods.get path = original.get path := by
    intro path hPath
    rw [hPods, OrderedMap.get_delete_of_ne hPath]
  have hNone : s.pods.get manifestPath = none := by rw [hPods, OrderedMap.get_delete_self]
  have hFresh : Fresh host roots original s.pods := by
    intro path entry hEntry
    have hPath : path ≠ manifestPath := by
      rintro rfl
      rw [hNone] at hEntry
      cases hEntry
    rw [hOther path hPath] at hEntry
    cases entry with
    | directory => trivial
    | file content => exact fun _ => .inr hEntry
    | link target => exact fun _ => .inr hEntry
  have hProgress := progress_of_fresh hCloned
    (fun path hPath => by rw [hOther path hPath]; exact kept_refl original path) hFresh
  rw [hNone] at hProgress
  refine (runs_rewrite hCloned (fun pods touched hGone _ => .gone hGone) (by simp) hProgress
    (fun path first _ hFirst => hVisible path first hFirst) hLegible (fun _ => hLock)
    (fun pods touched hDone hManifest => .relocated hDone ⟨lock, rfl, hManifest⟩) names).mono ?_
  rintro _ pods touched ⟨hDone, hManifest⟩
  exact ⟨.relocated hDone ⟨lock, rfl, hManifest⟩, fun _ => hDone⟩

theorem Inv.of_touched {touched : Bool} (h : Inv host roots original podfileLock pods touched) :
    Inv host roots original podfileLock pods false := by
  cases h with
  | gone hManifest => exact .gone hManifest
  | differs hMatch hManifest hKept => exact .differs hMatch hManifest hKept
  | relocated hRelocated hManifest => exact .relocated hRelocated hManifest
  | cloned hSame hTouched => exact .cloned hSame rfl

variable {lock manifest : Bytes}

/-- A run over locks that match goes on only from the tree as it was cloned. -/
theorem runs_matching (hCloned : Cloned host roots original)
    (hSound : Sound host roots original (some lock) a run) (hPods : s.pods = a.pods)
    (hManifest : s.pods.get manifestPath = some (.file manifest))
    (hMatch : locksMatch (some lock) s.pods = true)
    (hInv : Inv host roots original (some lock) s.pods s.touched) :
    Runs (Inv host roots original (some lock))
      (onError
        (findPath run.listing [] (textNamesSource host roots) (bytesNameSource host roots))
        (fun error => do
          unlinkSync manifestPath
          fail error) >>= fun names =>
        match names with
        | none => pure (.no false)
        | some _ => do
            unlinkSync manifestPath
            if !run.canRelocate then pure (.no true)
            else rewrite host roots run.listing (Utf8.decode lock) []) s fun _ pods touched =>
        Inv host roots original (some lock) pods touched ∧
          (locksMatch (some lock) pods = true → Relocated host roots original pods) := by
  have hGone : ∀ touched, Inv host roots original (some lock) (s.pods.delete manifestPath)
      touched := fun _ => .gone OrderedMap.get_delete_self
  refine Runs.bind (runs_onError (runs_findPath ⟨rfl, rfl⟩) hInv ?_) ?_
  · intro e t hSame hStill
    have hStart : Inv host roots original (some lock) t.pods t.touched := by
      rw [hSame, hStill]
      exact hInv
    refine Runs.bind (Q := fun _ pods _ => pods = s.pods.delete manifestPath) ?_ ?_
    · refine runs_change hStart ?_ ?_
      · rw [hSame]
        exact hGone _
      · rw [hSame]
    · intro _ u hu
      refine runs_fail ?_
      rw [hu]
      exact hGone _
  · rintro names t ⟨⟨hSame, hStill⟩, hNames⟩
    have hStart : Inv host roots original (some lock) t.pods t.touched := by
      rw [hSame, hStill]
      exact hInv
    have hBelow : ∀ e ∈ run.listing.below [] s.pods, e ∈ s.pods.entries :=
      fun e he => (mem_below.mp he).1
    cases names with
    | none =>
        refine runs_pure ⟨hStart, fun _ => ?_⟩
        cases hInv with
        | gone hNone =>
            rw [hManifest] at hNone
            cases hNone
        | differs hDiffers _ _ =>
            rw [hMatch] at hDiffers
            cases hDiffers
        | relocated hRelocated _ =>
            rw [hSame]
            exact hRelocated
        | cloned hOriginal _ =>
            have hFound : ∀ path entry, original.get path = some entry →
                found host roots entry = false := by
              intro path entry hEntry
              have hNil : path ≠ [] := by
                rintro rfl
                rw [OrderedMap.get_eq_none_iff.mpr hCloned.rooted] at hEntry
                cases hEntry
              refine hNames.mp rfl (path, entry) (mem_below.mpr ⟨?_, List.nil_prefix, hNil⟩)
              rw [hOriginal]
              exact OrderedMap.get_eq_some_iff.mp hEntry
            rw [hSame, hOriginal]
            refine relocated_of_not_found hCloned hFound ?_
            have hUnseen := hSound.unseen
            rw [← hPods, hOriginal] at hUnseen
            rw [hOriginal] at hMatch
            exact hUnseen hMatch hFound
    | some names =>
        have hSome : ∃ e ∈ s.pods.entries, found host roots e.2 = true := by
          by_contra hNone
          push Not at hNone
          have hFound : ∀ e ∈ run.listing.below [] s.pods, found host roots e.2 = false :=
            fun e he => Bool.not_eq_true _ ▸ hNone e (hBelow e he)
          exact absurd (hNames.mpr hFound) (Option.some_ne_none _)
        refine Runs.bind (Q := fun _ pods _ => pods = s.pods.delete manifestPath) ?_ ?_
        · refine runs_change hStart ?_ ?_
          · rw [hSame]
            exact hGone _
          · rw [hSame]
        · intro _ u hu
          have hNoManifest : u.pods.get manifestPath = none := by
            rw [hu, OrderedMap.get_delete_self]
          cases hCan : run.canRelocate with
          | false =>
              refine runs_pure ⟨.gone hNoManifest, fun hYes => ?_⟩
              simp [locksMatch, hNoManifest] at hYes
          | true =>
              have hRewrites : rewrites host roots run.toGoing (some lock) a.pods = true := by
                rw [locksMatch_eq hManifest, decide_eq_true_iff] at hMatch
                rw [← hPods]
                obtain ⟨e, he, hFound⟩ := hSome
                exact rewrites_matching hManifest hCan hMatch he hFound
              cases hInv with
              | gone hNone =>
                  rw [hManifest] at hNone
                  cases hNone
              | differs hDiffers _ _ =>
                  rw [hMatch] at hDiffers
                  cases hDiffers
              | relocated hRelocated _ =>
                  obtain ⟨e, he, hFound⟩ := hSome
                  rw [hRelocated.not_found he] at hFound
                  cases hFound
              | cloned hOriginal _ =>
                  rw [hOriginal] at hu hPods
                  refine runs_rewrite_cloned hCloned ?_ (hSound.legible hRewrites) ?_ hu []
                  · rw [hPods]
                    exact hSound.visible hRewrites
                  · by_contra hNames
                    rw [Bool.not_eq_false] at hNames
                    have hDiffers := (hSound.lock hRewrites lock rfl hNames).1
                    rw [← hPods, ← hOriginal, hMatch] at hDiffers
                    cases hDiffers

/-- A run over locks that differ rewrites what no run before it rewrote to be rewritten again. -/
theorem runs_differing (hCloned : Cloned host roots original)
    (hSound : Sound host roots original (some lock) a run) (hPods : s.pods = a.pods)
    (hManifest : s.pods.get manifestPath = some (.file manifest))
    (hMatch : locksMatch (some lock) s.pods = false)
    (hSame : s.pods.get manifestPath = original.get manifestPath)
    (hKept : ∀ path, path ≠ manifestPath → Kept host roots original path (s.pods.get path))
    (hCan : run.canRelocate = true) {names : List Text}
    (hPlan : planPodsRelocation host (Utf8.decode lock) (Utf8.decode manifest) roots.source
      (readPodspec run.toGoing s.pods) = .ok names) :
    Runs (Inv host roots original (some lock))
      (rewrite host roots run.listing (Utf8.decode lock) names) s fun _ pods touched =>
        Inv host roots original (some lock) pods touched ∧
          (locksMatch (some lock) pods = true → Relocated host roots original pods) := by
  have hRewrites : rewrites host roots run.toGoing (some lock) a.pods = true := by
    rw [locksMatch_eq hManifest, decide_eq_false_iff_not] at hMatch
    rw [← hPods]
    exact rewrites_differing hManifest hCan hMatch hPlan
  have hFresh := hSound.fresh hRewrites
  have hSeen := hSound.visible hRewrites
  have hLock := hSound.lock hRewrites lock rfl
  rw [← hPods] at hFresh hSeen hLock
  have hProgress := progress_of_fresh hCloned hKept hFresh
  have hAllows : Allows host roots original (s.pods.get manifestPath)
      (Inv host roots original (some lock)) := by
    intro pods touched hStill hNow
    refine .differs ?_ (hStill.trans hSame) hNow
    rw [hManifest] at hStill
    rw [locksMatch_eq hStill, ← hMatch, locksMatch_eq hManifest]
  refine (runs_rewrite hCloned hAllows ?_ hProgress ?_ (hSound.legible hRewrites) ?_
    (fun pods touched hDone hNow => .relocated hDone ⟨lock, rfl, hNow⟩) names).mono ?_
  · rw [hManifest]
    simp
  · intro path first hPath hFirst
    by_cases hGenerated : isGenerated path = true
    · obtain ⟨content, hContent, hOnce, -⟩ := hProgress.files path first hGenerated hFirst
      have hVisible := hSeen path content hContent
      rw [if_pos hGenerated] at hVisible ⊢
      rw [← hOnce trivial]
      exact hVisible
    · have hNow := hKept path hPath
      rw [Kept, hFirst] at hNow
      obtain hNow | ⟨hYes, -⟩ := hNow
      · exact hSeen path first hNow
      · exact absurd hYes hGenerated
  · intro hClean
    by_contra hNames
    rw [Bool.not_eq_false] at hNames
    obtain ⟨-, content, hContent, hBytes⟩ := hLock hNames
    rw [hClean content hContent] at hBytes
    cases hBytes
  · rintro _ pods touched ⟨hDone, hNow⟩
    exact ⟨.relocated hDone ⟨lock, rfl, hNow⟩, fun _ => hDone⟩

theorem runs_relocatePods (hCloned : Cloned host roots original)
    (hSound : Sound host roots original podfileLock a run) (hPods : s.pods = a.pods)
    (hInv : Inv host roots original podfileLock s.pods s.touched) :
    Runs (Inv host roots original podfileLock)
      (relocatePods host roots run.toGoing podfileLock) s fun _ pods touched =>
        Inv host roots original podfileLock pods touched ∧
          (locksMatch podfileLock pods = true → Relocated host roots original pods) := by
  have hNoMatch : ∀ {pods : Pods}, locksMatch podfileLock pods = false →
      locksMatch podfileLock pods = true → Relocated host roots original pods := by
    intro pods hNo hYes
    rw [hNo] at hYes
    cases hYes
  refine runs_entryAt ?_
  match hEntry : s.pods.get manifestPath, podfileLock with
  | none, _ =>
      refine runs_pure ⟨hInv, hNoMatch ?_⟩
      simp [locksMatch, hEntry]
  | some _, none => exact runs_pure ⟨hInv, hNoMatch rfl⟩
  | some entry, some lock =>
      refine (runs_attempt hInv).bind ?_
      rintro _ t ⟨hSame, hStill⟩
      rw [← hSame, ← hStill] at hInv
      refine (runs_readFileSync hInv).bind ?_
      rintro manifest u ⟨⟨hSame', hStill'⟩, hManifest⟩
      rw [← hSame', ← hStill'] at hInv
      rw [← hSame'] at hManifest
      have hPods' : u.pods = a.pods := hSame'.trans (hSame.trans hPods)
      by_cases hEqual : normalize (Utf8.decode lock) = normalize (Utf8.decode manifest)
      · rw [if_pos hEqual]
        have hMatch : locksMatch (some lock) u.pods = true := by
          rw [locksMatch_eq hManifest, decide_eq_true_iff]
          exact hEqual
        exact runs_matching hCloned hSound hPods' hManifest hMatch hInv
      · rw [if_neg hEqual]
        have hMatch : locksMatch (some lock) u.pods = false := by
          rw [locksMatch_eq hManifest, decide_eq_false_iff_not]
          exact hEqual
        have hDiffers : u.pods.get manifestPath = original.get manifestPath ∧
            ∀ path, path ≠ manifestPath → Kept host roots original path (u.pods.get path) := by
          cases hInv with
          | gone hNone =>
              rw [hManifest] at hNone
              cases hNone
          | differs _ hOriginal hKept => exact ⟨hOriginal, hKept⟩
          | relocated _ hWritten =>
              -- what was written is the lock, which matches
              obtain ⟨_, hLock, hWritten⟩ := hWritten
              cases hLock
              rw [hManifest] at hWritten
              cases hWritten
              rw [Utf8.decode_encode] at hEqual
              exact absurd rfl hEqual
          | cloned hOriginal _ =>
              rw [hOriginal]
              exact ⟨rfl, fun path _ => kept_refl original path⟩
        cases hCan : run.canRelocate with
        | false => exact runs_pure ⟨hInv, hNoMatch hMatch⟩
        | true =>
            refine runs_read ?_
            split
            · exact runs_pure ⟨hInv, hNoMatch hMatch⟩
            · rename_i names hPlan
              exact runs_differing hCloned hSound hPods' hManifest hMatch hDiffers.1 hDiffers.2
                hCan hPlan

end Run

/-! ## Runs one after another -/

/-- What is known of the tree after a run. -/
structure AfterInv (host : Host) (roots : Roots) (original : Pods) (podfileLock : Option Bytes)
    (a : After) : Prop where
  inv : Inv host roots original podfileLock a.pods a.touched
  returned : a.returned = true → locksMatch podfileLock a.pods = true →
    Relocated host roots original a.pods

theorem afterInv_step (hCloned : Cloned host roots original) {a b : After} {run : Run}
    (h : AfterInv host roots original podfileLock a)
    (hSound : Sound host roots original podfileLock a run)
    (hStep : After.step host roots podfileLock a run = some b) :
    AfterInv host roots original podfileLock b := by
  have hStart := h.inv.of_touched
  have hRuns := runs_relocatePods (s := ⟨a.pods, false, run.failing⟩) hCloned hSound rfl hStart
  unfold After.step at hStep
  dsimp only at hStep
  split at hStep
  · rename_i operations _
    cases hStep
    exact ⟨hRuns.cut hStart operations, by rintro ⟨⟩⟩
  · cases hStep
    refine ⟨hRuns.after (fun _ _ hEnd => hEnd.1) fun _ hEnd => hEnd, ?_⟩
    intro hReturned
    dsimp only at hReturned
    split at hReturned
    · rename_i answer hAnswer
      exact (hRuns.answered hAnswer).2
    · cases hReturned

theorem relocated_once (host : Host) (roots : Roots) (podfileLock : Option Bytes)
    (original : Pods) (hCloned : Cloned host roots original) (runs : List Run) (a : After)
    (hRun : Machine.run (After.step host roots podfileLock) ⟨original, false, false⟩ runs = some a)
    (hSound : Machine.Meets (After.step host roots podfileLock)
      (Sound host roots original podfileLock) ⟨original, false, false⟩ runs)
    (hEnded : a.returned = true ∨ a.touched = true)
    (hMatch : locksMatch podfileLock a.pods = true) : Relocated host roots original a.pods := by
  have hStart : AfterInv host roots original podfileLock ⟨original, false, false⟩ :=
    ⟨.cloned rfl rfl, by rintro ⟨⟩⟩
  obtain ⟨hInv, hReturned⟩ := Machine.invariant_run_meets
    (fun _ _ _ h hSound hStep => afterInv_step hCloned h hSound hStep) hStart hRun hSound
  cases hInv with
  | gone hManifest => simp [locksMatch, hManifest] at hMatch
  | differs hDiffers _ _ =>
      rw [hMatch] at hDiffers
      cases hDiffers
  | relocated hRelocated _ => exact hRelocated
  | cloned _ hTouched =>
      obtain hYes | hYes := hEnded
      · exact hReturned hYes hMatch
      · rw [hTouched] at hYes
        cases hYes

/-! ## A checkout below the source checkout -/

/-- ASCII texts, and the letter that the first byte of a quotation mark is taken for. -/
def exampleHost : Host := ⟨fun c => c.isAlphanum || c = 'â', fun _ => []⟩

def nestedRoots : Roots := ⟨"/s".toList, "/s/w".toList, by decide⟩

def exampleLock : Bytes :=
  Utf8.encode
    "PODS:\n\nSPEC CHECKSUMS:\n  P: 0123456789abcdef0123456789abcdef01234567\n".toList

def xcconfigPath : Path := ["Target Support Files".toList, "a".toList]

def examplePods : Pods := OrderedMap.ofList [
  (manifestPath, .file exampleLock),
  (["Target Support Files".toList], .directory),
  (xcconfigPath, .file (Utf8.encode "I=/s/a".toList)),
  (["Local Podspecs".toList], .directory),
  (["Local Podspecs".toList, "P.podspec.json".toList],
    .file (Utf8.encode "\x7b\"file\":\"/s/p\"\x7d".toList)),
  (["l".toList], .link "/s/b".toList)]

/-- The path is named between quotation marks only. -/
def quotedPods : Pods := OrderedMap.ofList [
  (manifestPath, .file exampleLock),
  (["Target Support Files".toList], .directory),
  (xcconfigPath, .file (Utf8.encode "“/s”".toList))]

def inOrder : Listing := ⟨id, fun _ => List.Perm.refl _⟩

/-- A run without a failure. -/
def exampleRun : Run := ⟨⟨true, inOrder, fun _ => false, []⟩, none⟩

theorem cloned_of_entries (hRooted : [] ∉ pods.keys)
    (hTree : ∀ path ∈ pods.keys, ∀ ancestor ∈ path.inits, ancestor ≠ [] → ancestor ≠ path →
      pods.get ancestor = some .directory)
    (hPlain : ∀ path ∈ manifestPath :: GENERATED_DIRS.map ([·]), pods.get path = none ∨
      pods.get path = some .directory ∨ pods.get path = some (.file exampleLock))
    (hTarget : ∀ e ∈ pods.entries, namesTarget host roots e.2 = false) :
    Cloned host roots pods := by
  refine ⟨hRooted, ?_, ?_, ?_⟩
  · intro path hPath ancestor hNil hPrefix hNe
    exact hTree path hPath ancestor ((List.mem_inits _ _).mpr hPrefix) hNil hNe
  · intro path hPath target hLink
    have hEntry := hPlain path hPath
    rw [hLink] at hEntry
    simp at hEntry
  · intro path entry hEntry
    exact hTarget (path, entry) (OrderedMap.get_eq_some_iff.mp hEntry)

theorem cloned_examplePods : Cloned exampleHost nestedRoots examplePods :=
  cloned_of_entries (by decide +kernel) (by decide +kernel) (by decide +kernel) (by decide +kernel)

theorem cloned_quotedPods : Cloned exampleHost nestedRoots quotedPods :=
  cloned_of_entries (by decide +kernel) (by decide +kernel) (by decide +kernel) (by decide +kernel)

/-- In the bytes of the file a letter seems to follow the path, so the search does not find it. -/
theorem not_relocated_quoted : ¬ ∀ (host : Host) (roots : Roots) (podfileLock : Option Bytes)
    (original : Pods), Cloned host roots original → ∀ (runs : List Run) (a : After),
      Machine.run (After.step host roots podfileLock) ⟨original, false, false⟩ runs = some a →
      a.returned = true ∨ a.touched = true → locksMatch podfileLock a.pods = true →
      Relocated host roots original a.pods := by
  intro h
  obtain ⟨a, hRun, hReturned, hMatch, hSame⟩ : ∃ a, Machine.run
        (After.step exampleHost nestedRoots (some exampleLock))
        ⟨quotedPods, false, false⟩ [exampleRun] = some a ∧
      a.returned = true ∧ locksMatch (some exampleLock) a.pods = true ∧
      a.pods.get xcconfigPath = some (.file (Utf8.encode "“/s”".toList)) :=
    ⟨_, rfl, by decide +kernel, by decide +kernel, by decide +kernel⟩
  have hRelocated := h exampleHost nestedRoots _ _ cloned_quotedPods _ a hRun (.inl hReturned) hMatch
  have hNames := hRelocated.named xcconfigPath _ hSame
  exact absurd hNames (by decide +kernel)

/-- Every file has the property. -/
def filesHold (p : Path → Bytes → Bool) (pods : Pods) : Bool :=
  pods.entries.all fun e => match e.2 with
    | .file content => p e.1 content
    | _ => true

theorem of_filesHold {p : Path → Bytes → Bool} {pods : Pods} (h : filesHold p pods = true)
    {path : Path} {content : Bytes} (hContent : pods.get path = some (.file content)) :
    p path content = true :=
  List.all_eq_true.mp h (path, .file content) (OrderedMap.get_eq_some_iff.mp hContent)

theorem sound_exampleRun : Sound exampleHost nestedRoots examplePods (some exampleLock)
    ⟨examplePods, false, false⟩ exampleRun := by
  have hOnce : filesHold (fun path content => !textNamesSource exampleHost nestedRoots (Utf8.decode
      (if isGenerated path then once exampleHost nestedRoots content else content)))
      examplePods = true := by
    decide +kernel
  have hSeen : filesHold (fun _ content =>
      !textNamesSource exampleHost nestedRoots (Utf8.decode content) ||
        bytesNameSource exampleHost nestedRoots content) examplePods = true := by
    decide +kernel
  have hLegible : filesHold (fun _ content =>
      decide (Utf8.encode (Utf8.decode content) = content)) examplePods = true := by
    decide +kernel
  refine ⟨?_, ?_, ?_, ?_, ?_⟩
  · intro _ path entry hEntry
    cases entry with
    | directory => trivial
    | file content => exact fun _ => .inr hEntry
    | link target => exact fun _ => .inr hEntry
  · intro _ lock hLock hNames
    cases hLock
    exact absurd hNames (by decide +kernel)
  · intro _ path content _ hContent _ _
    exact of_decide_eq_true (of_filesHold hLegible hContent)
  · intro _ path content hContent _ hNames
    have hNot := of_filesHold hOnce hContent
    rw [hNames] at hNot
    cases hNot
  · intro _ _ path content hContent _ hNames
    have hBytes := of_filesHold hSeen hContent
    rw [hNames] at hBytes
    exact hBytes

theorem relocated_once_nested : ∃ a, Machine.run
      (After.step exampleHost nestedRoots (some exampleLock))
      ⟨examplePods, false, false⟩ [exampleRun] = some a ∧
    a.returned = true ∧ Relocated exampleHost nestedRoots examplePods a.pods := by
  obtain ⟨a, hRun, hReturned, hMatch⟩ : ∃ a, Machine.run
        (After.step exampleHost nestedRoots (some exampleLock))
        ⟨examplePods, false, false⟩ [exampleRun] = some a ∧
      a.returned = true ∧ locksMatch (some exampleLock) a.pods = true :=
    ⟨_, rfl, by decide +kernel, by decide +kernel⟩
  refine ⟨a, hRun, hReturned, ?_⟩
  exact relocated_once exampleHost nestedRoots (some exampleLock)
    examplePods cloned_examplePods [exampleRun] a
    hRun ⟨sound_exampleRun, trivial⟩ (.inl hReturned) hMatch

end Stim.PodsRelocate
