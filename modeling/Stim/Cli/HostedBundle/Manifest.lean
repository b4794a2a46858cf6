import Stim.Cli.HostedBundle

/-!
# Accepted manifests

The files of a manifest that is accepted lie apart: the folded path of one is neither the folded path
of another nor an ancestor of it, and folding keeps the names on a path apart.
-/

namespace Stim.HostedBundle

open FileTree (Path)
open LinkTree (Apart)
open PosixPath (IsName slash here)

/-! ## Paths -/

theorem isName_of_mem {path segment : JsString} (h : isPath path = true)
    (hmem : segment ∈ path.splitOn slash) : IsName segment := by
  simp only [isPath, Bool.and_eq_true, List.all_eq_true, Bool.not_eq_true', bne_iff_ne] at h
  obtain ⟨⟨hne, hhere⟩, hparent⟩ := h.2 segment hmem
  exact ⟨List.isEmpty_eq_false_iff.mp hne, hhere, hparent, PosixPath.not_mem_splitOn path segment hmem⟩

variable {path : JsString}

/-- The names on a path that is accepted are its parts. -/
theorem names_val (h : isPath path = true) : (names path).map Subtype.val = path.splitOn slash := by
  have hparts : ∀ parts : List JsString, (∀ part ∈ parts, IsName part) →
      (parts.filterMap fun segment => if h : IsName segment then some (⟨segment, h⟩ : Name)
        else none).map Subtype.val = parts := by
    intro parts hnames
    induction parts with
    | nil => rfl
    | cons part parts ih =>
        rw [List.forall_mem_cons] at hnames
        rw [List.filterMap_cons, dif_pos hnames.1]
        simp only [List.map_cons]
        rw [ih hnames.2]
  exact hparts _ fun part hpart => isName_of_mem h hpart

theorem path_eq (h : isPath path = true) :
    path = List.intercalate [slash] ((names path).map Subtype.val) := by
  rw [names_val h, List.intercalate_splitOn]

theorem names_ne_nil (h : isPath path = true) : names path ≠ [] := by
  intro hnil
  have hval := names_val h
  rw [hnil, List.map_nil] at hval
  exact List.splitOn_ne_nil slash path hval.symm

/-! ## Folding -/

theorem fold_intercalate (folding : Folding) {segments : List JsString} (h : segments ≠ []) :
    folding.fold (List.intercalate [slash] segments) =
      List.intercalate [slash] (segments.map folding.fold) := by
  induction segments with
  | nil => exact absurd rfl h
  | cons segment segments ih =>
      cases segments with
      | nil => simp
      | cons next segments =>
          have hrest := ih (List.cons_ne_nil _ _)
          rw [List.map_cons] at hrest
          rw [List.map_cons, List.map_cons, List.intercalate_cons_cons, List.intercalate_cons_cons,
            List.append_assoc, List.append_assoc]
          rw [List.singleton_append, List.singleton_append, folding.fold_slash, hrest]

/-- What `dirname` is asked for above a path are the paths of the directories it is in. -/
theorem mem_ancestors {front back : List JsString} (hfront : front ≠ []) (hback : back ≠ [])
    (h : ∀ segment ∈ front ++ back, segment ≠ [] ∧ segment ≠ here ∧ slash ∉ segment) :
    ∀ count, back.length ≤ count →
      List.intercalate [slash] front ∈
        ancestors count (PosixPath.dirname (List.intercalate [slash] (front ++ back))) := by
  have hhere : ∀ segments : List JsString, segments ≠ [] →
      (∀ segment ∈ segments, segment ≠ [] ∧ segment ≠ here ∧ slash ∉ segment) →
      List.intercalate [slash] segments ≠ here := by
    intro segments hne hsegments heq
    have hsplit := congrArg (List.splitOn slash) heq
    rw [List.splitOn_intercalate slash (fun s hs => (hsegments s hs).2.2) hne] at hsplit
    have hmem : here ∈ segments := by
      rw [hsplit]
      decide
    exact (hsegments here hmem).2.1 rfl
  induction back using List.reverseRecOn with
  | nil => exact absurd rfl hback
  | append_singleton back last ih =>
      intro count hcount
      rw [List.length_append, List.length_singleton] at hcount
      obtain ⟨count, rfl⟩ : ∃ n, count = n + 1 := ⟨count - 1, by omega⟩
      rw [← List.append_assoc] at h ⊢
      have hinit : ∀ segment ∈ front ++ back, segment ≠ [] ∧ segment ≠ here ∧ slash ∉ segment :=
        fun segment hmem => h segment (List.mem_append_left _ hmem)
      have hlast := h last (List.mem_append_right _ (List.mem_singleton_self _))
      have hne : front ++ back ≠ [] := List.append_ne_nil_of_left_ne_nil hfront back
      rw [PosixPath.dirname_concat (fun s hs => ⟨(hinit s hs).1, (hinit s hs).2.2⟩)
        ⟨hlast.1, hlast.2.2⟩, if_neg hne, ancestors, if_neg (hhere _ hne hinit)]
      by_cases hnil : back = []
      · rw [hnil, List.append_nil]
        exact List.mem_cons_self
      · exact List.mem_cons_of_mem _ (ih hnil hinit count (by omega))

theorem length_le_intercalate {segments : List JsString} (h : ∀ segment ∈ segments, segment ≠ []) :
    segments.length ≤ (List.intercalate [slash] segments).length := by
  induction segments with
  | nil => exact Nat.zero_le _
  | cons segment segments ih =>
      rw [List.forall_mem_cons] at h
      have hpos := List.length_pos_of_ne_nil h.1
      cases segments with
      | nil =>
          simp only [List.length_singleton, List.intercalate_singleton]
          omega
      | cons next segments =>
          have hrest := ih h.2
          rw [List.intercalate_cons_cons, List.length_append, List.length_append]
          simp only [List.length_cons] at hrest ⊢
          omega

/-- A path whose folded path is known and no ancestor of another one leads through no other. -/
theorem not_prefix_names (folding : Folding) {paths : List JsString} {a b : JsString}
    (ha : isPath a = true) (hb : isPath b = true) (hanc : noAncestors paths = true)
    (hamem : folding.fold a ∈ paths) (hbmem : folding.fold b ∈ paths)
    (hne : folding.fold a ≠ folding.fold b) : ¬ names a <+: names b := by
  rintro ⟨back, hback⟩
  have hval : (names b).map Subtype.val =
      (names a).map Subtype.val ++ back.map Subtype.val := by
    rw [← hback, List.map_append]
  have hnil : back ≠ [] := by
    rintro rfl
    rw [List.append_nil] at hback
    apply hne
    rw [path_eq ha, path_eq hb, hback]
  have hfoldOf : ∀ path, isPath path = true →
      folding.fold path =
        List.intercalate [slash] (((names path).map Subtype.val).map folding.fold) := by
    intro path hpath
    have hne : (names path).map Subtype.val ≠ [] :=
      fun hnil => names_ne_nil hpath (List.map_eq_nil_iff.mp hnil)
    rw [← fold_intercalate folding hne, ← path_eq hpath]
  have hfoldB : folding.fold b =
      List.intercalate [slash] (((names a).map Subtype.val).map folding.fold ++
        (back.map Subtype.val).map folding.fold) := by
    rw [hfoldOf b hb, hval, List.map_append]
  have hsegments : ∀ segment ∈ ((names a).map Subtype.val).map folding.fold ++
      (back.map Subtype.val).map folding.fold,
      segment ≠ [] ∧ segment ≠ here ∧ slash ∉ segment := by
    intro segment hmem
    rw [← List.map_append, ← hval] at hmem
    obtain ⟨part, hpart, rfl⟩ := List.mem_map.mp hmem
    obtain ⟨name, -, rfl⟩ := List.mem_map.mp hpart
    exact ⟨folding.fold_ne_nil _ name.2.nonempty, folding.fold_ne_here _ name.2.not_here,
      folding.slash_not_mem _ name.2.no_slash⟩
  have hlength : ((back.map Subtype.val).map folding.fold).length ≤ (folding.fold b).length := by
    have hle := length_le_intercalate fun segment hmem => (hsegments segment hmem).1
    rw [← hfoldB, List.length_append] at hle
    omega
  have hmem : folding.fold a ∈
      ancestors (folding.fold b).length (PosixPath.dirname (folding.fold b)) := by
    rw [hfoldOf a ha]
    rw [hfoldB] at hlength ⊢
    refine mem_ancestors ?_ ?_ hsegments _ hlength
    · rw [Ne, List.map_eq_nil_iff, List.map_eq_nil_iff]
      exact names_ne_nil ha
    · rw [Ne, List.map_eq_nil_iff, List.map_eq_nil_iff]
      exact hnil
  rw [noAncestors, List.all_eq_true] at hanc
  have hall := hanc _ hbmem
  rw [List.all_eq_true] at hall
  have hnot := hall _ hmem
  rw [Bool.not_eq_true', List.contains_eq_mem, decide_eq_false_iff_not] at hnot
  exact hnot hamem

/-! ## Reading a manifest -/

/-- What holds of the entries that were read. -/
structure Reading.Valid (folding : Folding) (reading : Reading) : Prop where
  path : ∀ file ∈ reading.files, isPath file.path = true
  paths : reading.paths = reading.files.map fun file => folding.fold file.path
  nodup : reading.paths.Nodup

theorem readFile_valid {folding : Folding} {reading reading' : Reading} {value : Json}
    (h : readFile folding reading value = some reading') (hvalid : reading.Valid folding) :
    reading'.Valid folding ∧
      ∃ file, fileOf value = some file ∧ reading'.files = reading.files ++ [file] := by
  rw [readFile] at h
  cases hfile : fileOf value with
  | none =>
      rw [hfile] at h
      cases h
  | some file =>
      rw [hfile] at h
      simp only at h
      split_ifs at h with hchecks
      cases h
      obtain ⟨hpath, hnew, -⟩ := hchecks
      refine ⟨⟨?_, ?_, ?_⟩, file, rfl, rfl⟩
      · intro each hmem
        rcases List.mem_append.mp hmem with hold | hlast
        · exact hvalid.path each hold
        · rw [List.mem_singleton.mp hlast]
          exact hpath
      · simp only [List.map_append, hvalid.paths]
        rfl
      · apply List.nodup_append'.mpr
        refine ⟨hvalid.nodup, List.nodup_singleton _, ?_⟩
        exact List.disjoint_singleton.mpr (mt List.contains_iff_mem.mpr hnew)

theorem readFiles_valid {folding : Folding} {values : List Json} {reading reading' : Reading}
    (h : values.foldlM (readFile folding) reading = some reading')
    (hvalid : reading.Valid folding) :
    reading'.Valid folding ∧
      reading'.files.map some = reading.files.map some ++ values.map fileOf := by
  induction values generalizing reading with
  | nil =>
      cases h
      exact ⟨hvalid, by rw [List.map_nil, List.append_nil]⟩
  | cons value values ih =>
      rw [List.foldlM_cons] at h
      cases hread : readFile folding reading value with
      | none =>
          rw [hread] at h
          cases h
      | some next =>
          rw [hread] at h
          obtain ⟨hnext, file, hfile, hfiles⟩ := readFile_valid hread hvalid
          obtain ⟨hvalid', hall⟩ := ih h hnext
          refine ⟨hvalid', ?_⟩
          simp only [hall, hfiles, hfile, List.map_append, List.map_cons, List.map_nil,
            List.append_assoc, List.cons_append, List.nil_append]

/-- The files of an accepted manifest are its entries; their paths are names, and lie apart. -/
theorem parse_files {platform : Platform} {value : Json} {files : List HostedAppFile}
    (h : parseHostedAppManifest platform value = some files) :
    ∃ values, value = .array values ∧ (files.map some).Perm (values.map fileOf) ∧
      (∀ file ∈ files, isPath file.path = true) ∧ Apart (files.map HostedAppFile.names) := by
  obtain ⟨values, rfl⟩ : ∃ values, value = .array values := by
    cases value with
    | array values => exact ⟨values, rfl⟩
    | _ => cases h
  rw [parseHostedAppManifest] at h
  split_ifs at h with hlength
  cases hread : values.foldlM (readFile platform.folding) ⟨[], [], [], 0⟩ with
  | none =>
      rw [hread] at h
      cases h
  | some reading =>
      rw [hread] at h
      simp only at h
      split_ifs at h with hchecks
      rw [Bool.and_eq_true] at hchecks
      have hstart : Reading.Valid platform.folding ⟨[], [], [], 0⟩ :=
        ⟨fun file hmem => absurd hmem List.not_mem_nil, rfl, List.nodup_nil⟩
      obtain ⟨hvalid, hfiles⟩ := readFiles_valid hread hstart
      rw [List.map_nil, List.nil_append] at hfiles
      cases h
      have hperm := List.mergeSort_perm reading.files fun a b => platform.ordered a.path b.path
      refine ⟨values, rfl, ?_, ?_, ?_⟩
      · rw [← hfiles]
        exact hperm.map some
      · exact fun file hmem => hvalid.path file (hperm.mem_iff.mp hmem)
      · have hnodup : (reading.files.map fun file => platform.folding.fold file.path).Nodup := by
          rw [← hvalid.paths]
          exact hvalid.nodup
        refine Apart.perm ?_ (hperm.map HostedAppFile.names)
        rw [Apart, List.pairwise_map]
        rw [List.Nodup, List.pairwise_map] at hnodup
        apply hnodup.imp_of_mem
        intro a b ha hb hne
        have hpaths : ∀ file ∈ reading.files,
            platform.folding.fold file.path ∈ reading.paths := by
          intro file hmem
          rw [hvalid.paths]
          exact List.mem_map_of_mem hmem
        constructor
        · exact not_prefix_names platform.folding (hvalid.path a ha) (hvalid.path b hb) hchecks.1
            (hpaths a ha) (hpaths b hb) hne
        · exact not_prefix_names platform.folding (hvalid.path b hb) (hvalid.path a ha) hchecks.1
            (hpaths b hb) (hpaths a ha) hne.symm

end Stim.HostedBundle
