import Stim.Cli.HostedBundle.Manifest

/-!
# What a bundle holds

The loops lay out one entry after another of a manifest whose paths lie apart, so no operation meets
a link on its way: nothing but the bundle is touched, whether they end or throw.  Behind them the real
path of every entry is looked at.
-/

namespace Stim.HostedBundle

open FileTree (Path)
open LinkTree (Disk Entry Below Confined Apart Open layAll lay layDirs downs)
open PosixPath (IsName slash here parent)

variable {platform : Platform} {blobs : JsString → Option Blob} {app : Path Name}
  {files : List HostedAppFile} {file : HostedAppFile} {disk : BundleDisk}

/-! ## Loops -/

/-- What each round of a loop keeps, adds and finds. -/
theorem each_run {α : Type} {top : Path Name} {body : BundleDisk → α → Outcome Unit}
    {Done : List α → BundleDisk → Prop} {Good : α → Prop} {all : List α}
    (hbody : ∀ done a rest disk, done ++ a :: rest = all → Done done disk →
      Confined top disk (body disk a).2 ∧
        ((body disk a).1 = .ok () → Good a ∧ Done (done ++ [a]) (body disk a).2)) :
    ∀ {rest done : List α} {disk : BundleDisk}, done ++ rest = all → Done done disk →
      Confined top disk (each body rest disk).2 ∧
        ((each body rest disk).1 = .ok () →
          Done all (each body rest disk).2 ∧ ∀ a ∈ rest, Good a) := by
  intro rest
  induction rest with
  | nil =>
      intro done disk hall hdone
      rw [List.append_nil] at hall
      subst hall
      exact ⟨.refl top disk, fun _ => ⟨hdone, fun a ha => absurd ha List.not_mem_nil⟩⟩
  | cons a rest ih =>
      intro done disk hall hdone
      obtain ⟨hconfined, hnext⟩ := hbody done a rest disk hall hdone
      rw [each]
      cases hresult : body disk a with
      | mk result disk' =>
          rw [hresult] at hconfined hnext
          cases result with
          | error problem => exact ⟨hconfined, fun h => by cases h⟩
          | ok u =>
              obtain ⟨hgood, hdone'⟩ := hnext rfl
              obtain ⟨hmore, hrest⟩ := ih (by rw [List.append_assoc]; exact hall) hdone'
              refine ⟨hconfined.trans hmore, fun hok => ?_⟩
              exact ⟨(hrest hok).1, List.forall_mem_cons.mpr ⟨hgood, (hrest hok).2⟩⟩

/-! ## Entries -/

/-- What the blob of an entry holds. -/
def contentOf (blobs : JsString → Option Blob) (file : HostedAppFile) : Bytes :=
  ((blobs file.sha256).map Blob.content).getD []

theorem contentOf_eq {blob : Blob} (h : blobs file.sha256 = some blob) :
    contentOf blobs file = blob.content := by
  rw [contentOf, h]
  rfl

def entryOf (blobs : JsString → Option Blob) (file : HostedAppFile) : Entry JsString Bytes :=
  if file.kind = .link then .link (asText (contentOf blobs file))
  else .file (contentOf blobs file) (modeOf file.kind)

def entriesOf (blobs : JsString → Option Blob) (files : List HostedAppFile) :
    List (Path Name × Entry JsString Bytes) :=
  files.map fun file => (file.names, entryOf blobs file)

theorem entriesOf_fst (files : List HostedAppFile) :
    (entriesOf blobs files).map Prod.fst = files.map HostedAppFile.names := by
  rw [entriesOf, List.map_map]
  rfl

theorem names_concat (h : isPath file.path = true) :
    ∃ parents name, file.names = parents ++ [name] :=
  ⟨_, _, (List.dropLast_append_getLast (names_ne_nil h)).symm⟩

theorem not_prefix_dropLast (h : isPath file.path = true) :
    ¬ file.names <+: file.names.dropLast := by
  obtain ⟨parents, name, hnames⟩ := names_concat h
  rw [hnames, List.dropLast_concat]
  exact LinkTree.not_concat_prefix parents name

variable {done : List (Path Name × Entry JsString Bytes)}

/-- Before an entry is laid out, the directories on its path are there and it is not. -/
theorem makeParents_below (platform : Platform) (hpath : isPath file.path = true)
    (hbelow : Below app disk (layAll done)) (hapart : Apart (done.map Prod.fst ++ [file.names])) :
    ∃ parents name disk', file.names = parents ++ [name] ∧
      makeParents platform app disk file = (true, disk') ∧ Confined app disk disk' ∧
      Below app disk' (layDirs (layAll done) parents) ∧
      layDirs (layAll done) parents (parents ++ [name]) = none := by
  obtain ⟨parents, name, hnames⟩ := names_concat hpath
  obtain ⟨hopen, hnone⟩ := LinkTree.layAll_open hapart
  have hnone := hnone (names_ne_nil hpath)
  have htop : layDirs (layAll done) [] = layAll done := by
    apply LinkTree.layDirs_of_dirs
    intro way hway
    rw [List.prefix_nil.mp hway]
    exact hopen.1
  rw [← htop] at hbelow
  rw [hnames] at hopen hnone
  have hparents : Open (layAll done) ([] ++ parents) := by
    rw [List.nil_append]
    exact hopen.prefix (List.prefix_append _ _)
  obtain ⟨disk', hmade, hbelow', hconfined⟩ :=
    LinkTree.mkdirs_below readWay platform.limit hbelow hparents
  rw [List.append_nil] at hmade
  refine ⟨parents, name, disk', hnames, ?_, hconfined, hbelow', ?_⟩
  · rw [makeParents, hnames, List.dropLast_concat, hmade]
    rfl
  · rw [layDirs, if_neg (LinkTree.not_concat_prefix parents name), hnone]

variable (platform blobs) in
/-- A round of the first loop. -/
theorem copyFile_below (hpath : isPath file.path = true) (hbelow : Below app disk (layAll done))
    (hapart : Apart (done.map Prod.fst ++ [file.names])) :
    Confined app disk (copyFile platform blobs app disk file).2 ∧
      ((copyFile platform blobs app disk file).1 = .ok () →
        (∃ blob, blobs file.sha256 = some blob ∧
          blob.fits platform file.sha256 file.size = true) ∧
        Below app (copyFile platform blobs app disk file).2
          (layAll (if file.kind = .link then done else done ++ [(file.names, entryOf blobs file)]))) := by
  obtain ⟨parents, name, disk', hnames, hmade, hconfined, hbelow', hnone⟩ :=
    makeParents_below platform hpath hbelow hapart
  rw [copyFile]
  cases hblob : blobs file.sha256 with
  | none => exact ⟨.refl app disk, fun h => by cases h⟩
  | some blob =>
      simp only
      by_cases hfits : blob.fits platform file.sha256 file.size = true
      · rw [if_neg (not_not.mpr hfits)]
        by_cases hlink : file.kind = .link
        · rw [if_pos hlink, if_pos hlink]
          exact ⟨.refl app disk, fun _ => ⟨⟨blob, rfl, hfits⟩, hbelow⟩⟩
        · have hwritten := LinkTree.writeFile_below readWay platform.limit
            hbelow' (LinkTree.layDirs_dirs parents) hnone blob.content blob.mode
          have hset := LinkTree.below_set hbelow' (parents ++ [name])
            (.file (.file blob.content blob.mode))
          rw [LinkTree.lay_eq] at hset
          have hdirs : ∀ way, way <+: parents →
              lay (layAll done) (parents ++ [name]) (.file blob.content blob.mode) way =
                some .dir := by
            intro way hway
            have hne : way ≠ parents ++ [name] := by
              rintro rfl
              exact LinkTree.not_concat_prefix parents name hway
            rw [lay, if_neg hne, List.dropLast_concat, layDirs, if_pos hway]
          have hmode := LinkTree.chmod_below readWay platform.limit
            hset hdirs (if_pos rfl) (modeOf file.kind)
          have hfinal := LinkTree.below_set hset (parents ++ [name])
            (.file (.file blob.content (modeOf file.kind)))
          rw [LinkTree.lay_again] at hfinal
          have hentry : entryOf blobs file = .file blob.content (modeOf file.kind) := by
            rw [entryOf, if_neg hlink, contentOf_eq hblob]
          rw [if_neg hlink, if_neg hlink, hmade]
          simp only [hnames, hwritten, hmode]
          refine ⟨hconfined.trans (.trans (.set _ ?_ _) (.set _ ?_ _)), ?_⟩
          · exact List.prefix_append _ _
          · exact List.prefix_append _ _
          · intro _
            refine ⟨⟨blob, rfl, hfits⟩, ?_⟩
            rw [LinkTree.layAll_concat, hentry]
            exact hfinal
      · rw [if_pos hfits]
        exact ⟨.refl app disk, fun h => by cases h⟩

variable (platform blobs) in
/-- A round of the second loop. -/
theorem placeLink_below (hpath : isPath file.path = true) (hlink : file.kind = .link)
    (hbelow : Below app disk (layAll done)) (hapart : Apart (done.map Prod.fst ++ [file.names])) :
    Confined app disk (placeLink platform blobs app disk file).2 ∧
      ((placeLink platform blobs app disk file).1 = .ok () →
        isRefused file.path (contentOf blobs file) = false ∧
        Below app (placeLink platform blobs app disk file).2
          (layAll (done ++ [(file.names, entryOf blobs file)]))) := by
  obtain ⟨parents, name, disk', hnames, hmade, hconfined, hbelow', hnone⟩ :=
    makeParents_below platform hpath hbelow hapart
  rw [placeLink]
  cases hblob : blobs file.sha256 with
  | none => exact ⟨.refl app disk, fun h => by cases h⟩
  | some blob =>
      have hcontent := contentOf_eq hblob
      simp only
      cases hrefused : isRefused file.path blob.content with
      | true => exact ⟨.refl app disk, fun h => by cases h⟩
      | false =>
          have hplaced := LinkTree.symlink_below readWay platform.limit
            hbelow' (LinkTree.layDirs_dirs parents) hnone (asText blob.content)
          have hset := LinkTree.below_set hbelow' (parents ++ [name])
            (.file (.link (asText blob.content)))
          rw [LinkTree.lay_eq] at hset
          have hentry : entryOf blobs file = .link (asText blob.content) := by
            rw [entryOf, if_pos hlink, hcontent]
          rw [hmade]
          simp only [hnames, List.dropLast_concat, List.getLast?_concat, hplaced,
            Bool.false_eq_true, if_false]
          refine ⟨hconfined.trans (.set _ ?_ _), ?_⟩
          · exact List.prefix_append _ _
          · intro _
            refine ⟨by rw [hcontent, hrefused], ?_⟩
            rw [LinkTree.layAll_concat, hentry]
            exact hset

/-! ## Runs of the loops -/

/-- Of a manifest whose paths lie apart, no path leads to or through another one. -/
theorem eq_of_isInit (hapart : Apart (files.map HostedAppFile.names))
    {a b : HostedAppFile} (ha : a ∈ files) (hb : b ∈ files) (h : a.names <+: b.names) : a = b := by
  rw [Apart, List.pairwise_map] at hapart
  by_contra hne
  have hsymm : Std.Symm fun x y : HostedAppFile =>
      ¬ x.names <+: y.names ∧ ¬ y.names <+: x.names := ⟨fun _ _ => And.symm⟩
  exact (hapart.forall ha hb hne).1 h

/-- The files of a manifest in the order in which they are laid out. -/
def laidOut (files : List HostedAppFile) : List HostedAppFile :=
  files.filter (fun file => !isLink file) ++ files.filter isLink

theorem laidOut_perm (files : List HostedAppFile) : (laidOut files).Perm files := by
  have hperm := List.filter_append_perm (fun file => !isLink file) files
  simpa [laidOut] using hperm

theorem apart_laidOut (h : Apart (files.map HostedAppFile.names)) :
    Apart ((laidOut files).map HostedAppFile.names) := h.perm ((laidOut_perm files).map _)

theorem apart_entriesOf (h : Apart (files.map HostedAppFile.names)) :
    Apart ((entriesOf blobs (laidOut files)).map Prod.fst) := by
  rw [entriesOf_fst]
  exact apart_laidOut h

/-- The blob of an entry is the one that the manifest names. -/
def Stored (platform : Platform) (blobs : JsString → Option Blob) (file : HostedAppFile) : Prop :=
  ∃ blob, blobs file.sha256 = some blob ∧ blob.fits platform file.sha256 file.size = true

variable (platform blobs) in
theorem copyFiles_below (hpaths : ∀ file ∈ files, isPath file.path = true)
    (hapart : Apart (files.map HostedAppFile.names)) (hbare : Below app disk LinkTree.bare) :
    Confined app disk (each (copyFile platform blobs app) files disk).2 ∧
      ((each (copyFile platform blobs app) files disk).1 = .ok () →
        Below app (each (copyFile platform blobs app) files disk).2
          (layAll (entriesOf blobs (files.filter fun file => !isLink file))) ∧
        ∀ file ∈ files, Stored platform blobs file) := by
  -- what the rounds so far have laid out
  let Done : List HostedAppFile → BundleDisk → Prop := fun done disk =>
    Below app disk (layAll (entriesOf blobs (done.filter fun file => !isLink file)))
  have hround : ∀ done file rest disk, done ++ file :: rest = files → Done done disk →
      Confined app disk (copyFile platform blobs app disk file).2 ∧
        ((copyFile platform blobs app disk file).1 = .ok () → Stored platform blobs file ∧
          Done (done ++ [file]) (copyFile platform blobs app disk file).2) := by
    intro done file rest disk hall hdone
    have hmem : file ∈ files := by
      rw [← hall]
      exact List.mem_append_right _ List.mem_cons_self
    have hnext : Apart ((entriesOf blobs (done.filter fun file => !isLink file)).map Prod.fst ++
        [file.names]) := by
      rw [entriesOf_fst]
      refine List.Pairwise.sublist ?_ hapart
      rw [← hall, List.map_append, List.map_cons]
      exact (List.filter_sublist.map _).append (List.cons_sublist_cons.mpr (List.nil_sublist _))
    obtain ⟨hconfined, hlaid⟩ := copyFile_below platform blobs (hpaths file hmem) hdone hnext
    refine ⟨hconfined, fun hok => ⟨(hlaid hok).1, ?_⟩⟩
    have hbelow := (hlaid hok).2
    split_ifs at hbelow with hlink <;> simpa [Done, isLink, hlink, entriesOf] using hbelow
  exact each_run hround (List.nil_append files) hbare

variable (platform blobs) in
theorem placeLinks_below (hpaths : ∀ file ∈ files, isPath file.path = true)
    (hapart : Apart (files.map HostedAppFile.names))
    (hfiles : Below app disk (layAll (entriesOf blobs (files.filter fun file => !isLink file)))) :
    Confined app disk (each (placeLink platform blobs app) (files.filter isLink) disk).2 ∧
      ((each (placeLink platform blobs app) (files.filter isLink) disk).1 = .ok () →
        Below app (each (placeLink platform blobs app) (files.filter isLink) disk).2
          (layAll (entriesOf blobs (laidOut files))) ∧
        ∀ file ∈ files.filter isLink, isRefused file.path (contentOf blobs file) = false) := by
  let Done : List HostedAppFile → BundleDisk → Prop := fun done disk =>
    Below app disk (layAll (entriesOf blobs ((files.filter fun file => !isLink file) ++ done)))
  have hround : ∀ done file rest disk, done ++ file :: rest = files.filter isLink →
      Done done disk →
      Confined app disk (placeLink platform blobs app disk file).2 ∧
        ((placeLink platform blobs app disk file).1 = .ok () →
          isRefused file.path (contentOf blobs file) = false ∧
          Done (done ++ [file]) (placeLink platform blobs app disk file).2) := by
    intro done file rest disk hall hdone
    have hmem : file ∈ files.filter isLink := by
      rw [← hall]
      exact List.mem_append_right _ List.mem_cons_self
    obtain ⟨hmem, hlink⟩ := List.mem_filter.mp hmem
    have hnext : Apart ((entriesOf blobs ((files.filter fun file => !isLink file) ++ done)).map
        Prod.fst ++ [file.names]) := by
      rw [entriesOf_fst]
      refine List.Pairwise.sublist ?_ (apart_laidOut hapart)
      rw [laidOut, ← hall, ← List.append_assoc]
      simp only [List.map_append, List.map_cons]
      exact List.Sublist.append_left (List.cons_sublist_cons.mpr (List.nil_sublist _)) _
    obtain ⟨hconfined, hlaid⟩ := placeLink_below platform blobs (hpaths file hmem)
      (by simpa [isLink] using hlink) hdone hnext
    refine ⟨hconfined, fun hok => ⟨(hlaid hok).1, ?_⟩⟩
    simp only [Done]
    rw [← List.append_assoc, entriesOf, List.map_append]
    exact (hlaid hok).2
  refine each_run hround (List.nil_append _) ?_
  simp only [Done]
  rw [List.append_nil]
  exact hfiles

/-! ## Real paths -/

/-- What lies inside is below, strictly. -/
theorem prefix_of_inside {root path : Path Name} (h : inside (pathText root) (pathText path) = true) :
    root <+: path ∧ path ≠ root := by
  have hvalid : ∀ p : Path Name, ∀ name ∈ p.map Subtype.val, IsName name := by
    intro p name hmem
    obtain ⟨n, -, rfl⟩ := List.mem_map.mp hmem
    exact n.2
  have hnames : ∀ p : Path Name, PosixPath.names (pathText p) = p.map Subtype.val :=
    fun p => PosixPath.resolveSegments_text (hvalid p)
  simp only [inside, Bool.and_eq_true, bne_iff_ne, Bool.not_eq_true'] at h
  obtain ⟨⟨⟨hempty, hparent⟩, hup⟩, -⟩ := h
  have hpre : root.map Subtype.val <+: path.map Subtype.val := by
    by_contra hnot
    rw [← hnames root, ← hnames path] at hnot
    obtain ⟨rest, hrelative, hrest⟩ := PosixPath.relative_outside hnot
    rcases hrest with rfl | hslash
    · exact hparent (by rw [hrelative, List.append_nil])
    · cases rest with
      | nil => cases hslash
      | cons unit rest =>
          cases hslash
          rw [hrelative] at hup
          simp [List.isPrefixOf] at hup
  rw [List.prefix_map_iff_of_injective Subtype.val_injective] at hpre
  refine ⟨hpre, ?_⟩
  rintro rfl
  apply hempty
  rw [PosixPath.relative_within (List.append_nil _).symm]
  rfl

/-- What `realpathSync` answers for an entry lies strictly inside. -/
def AnsweredInside (platform : Platform) (app root : Path Name) (disk : BundleDisk)
    (file : HostedAppFile) : Prop :=
  ∃ path, realpathSync platform disk (app ++ file.names) = some path ∧ root <+: path ∧ path ≠ root

theorem checkEntries_inside (platform : Platform) (app root : Path Name)
    (files : List HostedAppFile) (disk : BundleDisk) :
    Confined app disk (each (checkEntry platform app root) files disk).2 ∧
      ((each (checkEntry platform app root) files disk).1 = .ok () →
        (each (checkEntry platform app root) files disk).2 = disk ∧
        ∀ file ∈ files, AnsweredInside platform app root disk file) := by
  have hround : ∀ (done : List HostedAppFile) file rest now, done ++ file :: rest = files →
      now = disk → Confined app now (checkEntry platform app root now file).2 ∧
        ((checkEntry platform app root now file).1 = .ok () →
          AnsweredInside platform app root disk file ∧
          (checkEntry platform app root now file).2 = disk) := by
    intro done file rest now _ hnow
    rw [hnow, checkEntry, AnsweredInside]
    cases hreal : realpathSync platform disk (app ++ file.names) with
    | none => exact ⟨.refl app disk, fun h => by cases h⟩
    | some path =>
        simp only
        by_cases hinside : inside (pathText root) (pathText path) = true
        · have hsame : ∀ {outcome : Outcome Unit}, outcome.2 = disk → Confined app disk outcome.2 ∧
              (outcome.1 = .ok () →
                (∃ found, some path = some found ∧ root <+: found ∧ found ≠ root) ∧
                outcome.2 = disk) :=
            fun h => ⟨h ▸ .refl app disk, fun _ => ⟨⟨path, rfl, prefix_of_inside hinside⟩, h⟩⟩
          apply hsame
          rw [if_neg (not_not.mpr hinside)]
          split
          · rfl
          · split
            · split
              · rfl
              · rfl
            · rfl
        · rw [if_pos hinside]
          exact ⟨.refl app disk, fun h => by cases h⟩
  exact each_run hround (List.nil_append files) rfl

/-! ## The bundle -/

/-- A bundle that is its manifest. -/
structure Materialized (platform : Platform) (blobs : JsString → Option Blob) (app : Path Name)
    (files : List HostedAppFile) (disk : BundleDisk) : Prop where
  file : ∀ file ∈ files, file.kind ≠ .link → ∃ blob, blobs file.sha256 = some blob ∧
    blob.fits platform file.sha256 file.size = true ∧
    FileTree.get disk.tree (app ++ file.names) =
      some (.file (.file blob.content (modeOf file.kind)))
  link : ∀ file ∈ files, file.kind = .link → ∃ blob, blobs file.sha256 = some blob ∧
    blob.fits platform file.sha256 file.size = true ∧
    Utf8.encode (Utf8.decode blob.content) = blob.content ∧
    FileTree.get disk.tree (app ++ file.names) = some (.file (.link (asText blob.content)))
  directory : ∀ file ∈ files, ∀ way, way <+: file.names → way ≠ file.names →
    FileTree.get disk.tree (app ++ way) = some .dir
  nothing_else : ∀ way node, FileTree.get disk.tree (app ++ way) = some node →
    way = [] ∨ ∃ file ∈ files, way <+: file.names
  answered : ∃ root, realpathSync platform disk app = some root ∧
    ∀ file ∈ files, AnsweredInside platform app root disk file

/-- What is laid out by the loops. -/
structure Laid (platform : Platform) (blobs : JsString → Option Blob) (app : Path Name)
    (files : List HostedAppFile) (disk : BundleDisk) : Prop where
  below : Below app disk (layAll (entriesOf blobs (laidOut files)))
  stored : ∀ file ∈ files, Stored platform blobs file
  text : ∀ file ∈ files, file.kind = .link → isRefused file.path (contentOf blobs file) = false
  answered : ∃ root, realpathSync platform disk app = some root ∧
    ∀ file ∈ files, AnsweredInside platform app root disk file

theorem Laid.get_entry (h : Laid platform blobs app files disk) (hapart : Apart (files.map HostedAppFile.names))
    (hmem : file ∈ files) :
    FileTree.get disk.tree (app ++ file.names) = some (.file (entryOf blobs file)) := by
  rw [h.below file.names]
  apply (LinkTree.layAll_eq (apart_entriesOf hapart) file.names).1
  exact List.mem_map_of_mem (f := fun file => (HostedAppFile.names file, entryOf blobs file))
    ((laidOut_perm files).mem_iff.mpr hmem)

theorem get_dir (h : Below app disk (layAll (entriesOf blobs (laidOut files))))
    (hapart : Apart (files.map HostedAppFile.names))
    {way : Path Name} (hnone : way ∉ files.map HostedAppFile.names) :
    FileTree.get disk.tree (app ++ way) =
      if way = [] ∨ ∃ file ∈ files, way <+: file.names.dropLast then some .dir else none := by
  have hout : ∀ entry, (way, entry) ∉ entriesOf blobs (laidOut files) := by
    intro entry hmem
    obtain ⟨file, hfile, heq⟩ := List.mem_map.mp hmem
    cases heq
    exact hnone (List.mem_map_of_mem ((laidOut_perm files).mem_iff.mp hfile))
  have hexists : (∃ e ∈ entriesOf blobs (laidOut files), way <+: e.1.dropLast) ↔
      ∃ file ∈ files, way <+: file.names.dropLast := by
    simp only [entriesOf, List.mem_map, exists_exists_and_eq_and, (laidOut_perm files).mem_iff]
  rw [h way, (LinkTree.layAll_eq (apart_entriesOf hapart) way).2 hout]
  simp only [hexists]

/-- A proper prefix leads to the directory of the last name, or above it. -/
theorem prefix_dropLast {way path : Path Name} (h : way <+: path) (hne : way ≠ path) :
    way <+: path.dropLast := by
  cases path using List.reverseRecOn with
  | nil => exact h
  | append_singleton front name =>
      rw [List.dropLast_concat]
      exact (List.prefix_concat_iff.mp h).resolve_left hne

theorem Laid.materialized (h : Laid platform blobs app files disk) (hapart : Apart (files.map HostedAppFile.names)) :
    Materialized platform blobs app files disk := by
  have hdirectory : ∀ file ∈ files, ∀ way, way <+: file.names → way ≠ file.names →
      FileTree.get disk.tree (app ++ way) = some .dir := by
    intro file hmem way hway hne
    have hnone : way ∉ files.map HostedAppFile.names := by
      intro hother
      obtain ⟨other, hmemOther, hsame⟩ := List.mem_map.mp hother
      rw [← hsame] at hway hne
      exact hne (congrArg HostedAppFile.names (eq_of_isInit hapart hmemOther hmem hway))
    rw [get_dir h.below hapart hnone, if_pos]
    exact Or.inr ⟨file, hmem, prefix_dropLast hway hne⟩
  constructor
  · intro file hmem hkind
    obtain ⟨blob, hblob, hfits⟩ := h.stored file hmem
    refine ⟨blob, hblob, hfits, ?_⟩
    rw [h.get_entry hapart hmem, entryOf, if_neg hkind, contentOf_eq hblob]
  · intro file hmem hkind
    obtain ⟨blob, hblob, hfits⟩ := h.stored file hmem
    have hrefused := h.text file hmem hkind
    rw [contentOf_eq hblob] at hrefused
    simp only [isRefused, Bool.or_eq_false_iff, bne_eq_false_iff_eq] at hrefused
    refine ⟨blob, hblob, hfits, hrefused.1.1.1.1.1.1.2, ?_⟩
    rw [h.get_entry hapart hmem, entryOf, if_pos hkind, contentOf_eq hblob]
  · exact hdirectory
  · intro way node hget
    by_cases hmem : way ∈ files.map HostedAppFile.names
    · obtain ⟨file, hfile, rfl⟩ := List.mem_map.mp hmem
      exact Or.inr ⟨file, hfile, List.prefix_refl _⟩
    · rw [get_dir h.below hapart hmem] at hget
      split_ifs at hget with hway
      rcases hway with hnil | ⟨file, hfile, hpre⟩
      · exact Or.inl hnil
      · exact Or.inr ⟨file, hfile, hpre.trans (List.dropLast_prefix _)⟩
  · exact h.answered

variable (platform blobs) in
theorem fillBundle_below (area : Path Name) (hpaths : ∀ file ∈ files, isPath file.path = true)
    (hapart : Apart (files.map HostedAppFile.names))
    (hbare : Below (area ++ [APP]) disk LinkTree.bare) :
    Confined (area ++ [APP]) disk (fillBundle platform blobs area files disk).2 ∧
      ∀ found, (fillBundle platform blobs area files disk).1 = .ok found → found = files ∧
        Laid platform blobs (area ++ [APP]) files
          (fillBundle platform blobs area files disk).2 := by
  obtain ⟨hcopied, hafter⟩ := copyFiles_below platform blobs hpaths hapart hbare
  rw [fillBundle]
  cases hcopy : each (copyFile platform blobs (area ++ [APP])) files disk with
  | mk result copied =>
      rw [hcopy] at hcopied hafter
      cases result with
      | error problem => exact ⟨hcopied, fun found h => by cases h⟩
      | ok u =>
          obtain ⟨hfiles, hstored⟩ := hafter rfl
          obtain ⟨hplaced, hafter⟩ :=
            placeLinks_below platform blobs hpaths hapart hfiles
          simp only
          cases hplace : each (placeLink platform blobs (area ++ [APP])) (files.filter isLink)
              copied with
          | mk result placed =>
              rw [hplace] at hplaced hafter
              cases result with
              | error problem => exact ⟨hcopied.trans hplaced, fun found h => by cases h⟩
              | ok u =>
                  obtain ⟨hbelow, htext⟩ := hafter rfl
                  simp only
                  cases hroot : realpathSync platform placed (area ++ [APP]) with
                  | none => exact ⟨hcopied.trans hplaced, fun found h => by cases h⟩
                  | some root =>
                      obtain ⟨hchecked, hafter⟩ :=
                        checkEntries_inside platform (area ++ [APP]) root files placed
                      simp only
                      cases hcheck : each (checkEntry platform (area ++ [APP]) root) files
                          placed with
                      | mk result checked =>
                          rw [hcheck] at hchecked hafter
                          have hconfined := (hcopied.trans hplaced).trans hchecked
                          cases result with
                          | error problem => exact ⟨hconfined, fun found h => by cases h⟩
                          | ok u =>
                              refine ⟨hconfined, fun found h => ?_⟩
                              cases h
                              obtain ⟨hsame, hinside⟩ := hafter rfl
                              simp only at hsame
                              subst hsame
                              refine ⟨rfl, hbelow, hstored, ?_, root, hroot, hinside⟩
                              intro file hmem hkind
                              exact htext file
                                (List.mem_filter.mpr ⟨hmem, by simpa [isLink] using hkind⟩)

/-- What is removed and made again is empty. -/
theorem bare_mkdir (app : Path Name) (disk : BundleDisk)
    (h : (LinkTree.mkdir (disk.remove app) app).1 = true) :
    Below app (LinkTree.mkdir (disk.remove app) app).2 LinkTree.bare := by
  have hgone : ∀ way, FileTree.get (disk.remove app).tree (app ++ way) = none := by
    intro way
    rw [LinkTree.get_remove, if_pos (List.prefix_append _ _)]
  have hmade : LinkTree.mkdir (disk.remove app) app = (true, (disk.remove app).set app .dir) := by
    rw [LinkTree.mkdir] at h ⊢
    split at h
    · rfl
    · cases h
  intro way
  rw [hmade, LinkTree.get_set, hgone way, LinkTree.bare]
  simp

theorem mkdir_confined (app : Path Name) (disk : BundleDisk) :
    Confined app disk (LinkTree.mkdir disk app).2 := by
  rw [LinkTree.mkdir]
  split
  · exact .set disk (List.prefix_refl app) .dir
  · exact .refl app disk

/-- The manifest was read from a blob with its digest, and accepted. -/
def Accepted (platform : Platform) (blobs : JsString → Option Blob) (metadata : HostedAppMetadata)
    (files : List HostedAppFile) : Prop :=
  ∃ blob value, blobs metadata.manifestSha256 = some blob ∧
    blob.fits platform metadata.manifestSha256 metadata.manifestSize = true ∧
    Json.parse (asText blob.content) = some value ∧
    parseHostedAppManifest platform value = some files

theorem readHostedApp_accepted {metadata : HostedAppMetadata}
    (h : readHostedApp platform blobs metadata = .ok files) (hstate : metadata.state = .installing) :
    Accepted platform blobs metadata files := by
  rw [readHostedApp] at h
  cases hblob : blobs metadata.manifestSha256 with
  | none =>
      rw [hblob, hstate] at h
      cases h
  | some blob =>
      rw [hblob] at h
      simp only at h
      split_ifs at h with hfits
      cases hvalue : Json.parse (asText blob.content) with
      | none =>
          rw [hvalue] at h
          cases h
      | some value =>
          rw [hvalue] at h
          simp only at h
          cases hparse : parseHostedAppManifest platform value with
          | none =>
              rw [hparse] at h
              cases h
          | some found =>
              rw [hparse] at h
              cases h
              exact ⟨blob, value, hblob, hfits, hvalue, hparse⟩

/-- What `materializeHostedApp` has read, and done to the file system, when it returns. -/
theorem materializeHostedApp_run (platform : Platform) (blobs : JsString → Option Blob)
    (area : Path Name) (metadata : HostedAppMetadata) (disk : BundleDisk) :
    Confined (area ++ [APP]) disk (materializeHostedApp platform blobs area metadata disk).2 ∧
      ∀ files, (materializeHostedApp platform blobs area metadata disk).1 = .ok files →
        Accepted platform blobs metadata files ∧
        Laid platform blobs (area ++ [APP]) files
          (materializeHostedApp platform blobs area metadata disk).2 := by
  have hkept : Confined (area ++ [APP]) disk disk := .refl _ disk
  rw [materializeHostedApp]
  cases hread : readHostedApp platform blobs metadata with
  | error problem => exact ⟨hkept, fun found h => by cases h⟩
  | ok files =>
      simp only
      split_ifs with hstate
      · exact ⟨hkept, fun found h => by cases h⟩
      have haccepted := readHostedApp_accepted hread (not_not.mp hstate)
      obtain ⟨blob, value, hblob, hfits, -, hparse⟩ := id haccepted
      obtain ⟨-, -, -, hpaths, hapart⟩ := parse_files hparse
      rw [hblob]
      simp only [hfits, not_true_eq_false, if_false]
      have hmkdir := (Confined.remove disk (area ++ [APP])).trans
        (mkdir_confined (area ++ [APP]) (disk.remove (area ++ [APP])))
      have hbare := bare_mkdir (area ++ [APP]) disk
      cases hmade : LinkTree.mkdir (disk.remove (area ++ [APP])) (area ++ [APP]) with
      | mk made disk' =>
          rw [hmade] at hmkdir hbare
          cases made with
          | false => exact ⟨hmkdir, fun found h => by cases h⟩
          | true =>
              obtain ⟨hconfined, hlaid⟩ :=
                fillBundle_below platform blobs area hpaths hapart (hbare rfl)
              refine ⟨hmkdir.trans hconfined, fun found hfound => ?_⟩
              obtain ⟨rfl, hlaid⟩ := hlaid found hfound
              exact ⟨haccepted, hlaid⟩

/-- A materialized app is its manifest, and stays in its bundle. -/
theorem materialize_contained (platform : Platform) (blobs : JsString → Option Blob)
    (area : Path Name) (metadata : HostedAppMetadata) (disk : BundleDisk) :
    Confined (area ++ [APP]) disk (materializeHostedApp platform blobs area metadata disk).2 ∧
      ∀ files, (materializeHostedApp platform blobs area metadata disk).1 = .ok files →
        Accepted platform blobs metadata files ∧
        Materialized platform blobs (area ++ [APP]) files
          (materializeHostedApp platform blobs area metadata disk).2 := by
  obtain ⟨hconfined, hrun⟩ := materializeHostedApp_run platform blobs area metadata disk
  refine ⟨hconfined, fun files hok => ?_⟩
  obtain ⟨haccepted, hlaid⟩ := hrun files hok
  obtain ⟨blob, value, -, -, -, hparse⟩ := id haccepted
  obtain ⟨-, -, -, -, hapart⟩ := parse_files hparse
  exact ⟨haccepted, hlaid.materialized hapart⟩

end Stim.HostedBundle
