import Mathlib
import Stim.Cli.HomeSchema

/-!
# What a restored schema gives back

`restoreSchema` reads one snapshot directory, so it undoes a migration over several
schemas only for the files that the first step has snapshotted, and only when that
snapshot was taken before the step's rewrite began.  It throws where a step has put a
directory in the place of a file of the snapshot, or a file in the place of a directory.
-/

namespace Stim.Cli

/-! ## Paths -/

/-- A path that is no bookkeeping of the schema itself. -/
structure Own (path : HomePath) : Prop where
  nonempty : path ≠ []
  backup : path.head? ≠ some "backup"
  schema : path.head? ≠ some "schema.json"

variable {dir file : HomePath}

theorem Own.below (h : Own dir) (hBelow : dir <+: file) : Own file := by
  obtain ⟨rest, rfl⟩ := hBelow
  have hHead : (dir ++ rest).head? = dir.head? := by
    rw [List.head?_append]
    cases dir with
    | nil => exact absurd rfl h.nonempty
    | cons name dir => rfl
  refine ⟨?_, hHead ▸ h.backup, hHead ▸ h.schema⟩
  intro hNil
  exact h.nonempty (List.append_eq_nil_iff.mp hNil).1

variable {path : HomePath}

theorem Own.ne_schemaPath (h : Own path) : path ≠ schemaPath := by
  rintro rfl
  exact h.schema rfl

variable {schema : Nat}

theorem Own.ne_backup {path file : HomePath} (h : Own path) : path ≠ backupPath schema ++ file := by
  rintro rfl
  exact h.backup rfl

theorem schemaPath_ne_backup {file : HomePath} : schemaPath ≠ backupPath schema ++ file := by
  intro hEq
  exact absurd (List.cons.inj hEq).1 (by decide)

theorem backup_inj {n m : Nat} {file file' : HomePath}
    (h : backupPath n ++ file = backupPath m ++ file') : n = m ∧ file = file' := by
  simp only [backupPath, List.cons_append, List.nil_append, List.cons.injEq, true_and] at h
  refine ⟨?_, h.2⟩
  simpa using h.1

theorem mem_filesBelow {home : Home} :
    file ∈ filesBelow home dir ↔ (home.get file).isSome ∧ dir <+: file := by
  rw [filesBelow, List.mem_filter, OrderedMap.get_isSome_iff, List.isPrefixOf_iff_prefix]

theorem existsAt_of_below {home : Home} (hFile : (home.get file).isSome) (hBelow : dir <+: file) :
    existsAt home dir = true := by
  rw [existsAt, List.any_eq_true]
  exact ⟨file, OrderedMap.get_isSome_iff.mp hFile, List.isPrefixOf_iff_prefix.mpr hBelow⟩

/-! ## Files beside each other -/

/-- One directory tree can hold both files. -/
def Beside (file other : HomePath) : Prop := file <+: other ∨ other <+: file → file = other

instance (file other : HomePath) : Decidable (Beside file other) :=
  inferInstanceAs (Decidable (_ → _))

theorem Beside.symm {file other : HomePath} (h : Beside file other) : Beside other file :=
  fun hBelow => (h hBelow.symm).symm

theorem beside_of_head {file other : HomePath} (hFile : file ≠ []) (hOther : other ≠ [])
    (hHead : file.head? ≠ other.head?) : Beside file other := by
  rintro (⟨rest, rfl⟩ | ⟨rest, rfl⟩)
  · cases file with
    | nil => exact absurd rfl hFile
    | cons name file => exact absurd rfl hHead
  · cases other with
    | nil => exact absurd rfl hOther
    | cons name other => exact absurd rfl hHead

theorem Own.beside_schemaPath (h : Own path) : Beside path schemaPath :=
  beside_of_head h.nonempty (by decide) h.schema

theorem beside_backup {file path : HomePath} (hFile : file ≠ [])
    (hHead : file.head? ≠ some "backup") : Beside file (backupPath schema ++ path) :=
  beside_of_head hFile (by simp [backupPath]) hHead

theorem beside_of_backup {dir file other : HomePath} (h : Beside (dir ++ file) (dir ++ other)) :
    Beside file other := by
  intro hBelow
  refine List.append_cancel_left (h (hBelow.imp ?_ ?_))
  · exact (List.prefix_append_right_inj dir).mpr
  · exact (List.prefix_append_right_inj dir).mpr

theorem blocked_eq_false {home : Home} :
    blocked home path = false ↔ ∀ file, (home.get file).isSome → Beside file path := by
  rw [blocked, List.any_eq_false]
  refine forall_congr' fun file => ?_
  rw [OrderedMap.get_isSome_iff]
  refine forall_congr' fun _ => ?_
  simp only [Bool.and_eq_true, Bool.or_eq_true, decide_eq_true_iff, List.isPrefixOf_iff_prefix,
    not_and, Beside]
  tauto

/-- A file that is there, or the marker, which may yet come. -/
def There (home : Home) (file : HomePath) : Prop := file = schemaPath ∨ (home.get file).isSome

/-- The files of a home are those of a directory tree. -/
def IsTree (home : Home) : Prop :=
  ∀ file other, There home file → There home other → Beside file other

/-! ## One file at a time -/

/-- The homes agree but for one path. -/
def OnlyAt (home home' : Home) (path : HomePath) : Prop :=
  ∀ file, file ≠ path → home'.get file = home.get file

theorem onlyAt_set (home : Home) (path : HomePath) (content : HomeFile) :
    OnlyAt home (home.set path content) path :=
  fun _ hNe => OrderedMap.get_set_of_ne hNe

/-- A change of one file that a directory tree allows: it agrees but for the path, and a
file that is there now stands beside the others. -/
structure Wrote (home home' : Home) (path : HomePath) : Prop where
  only : OnlyAt home home' path
  beside : (home'.get path).isSome → ∀ file, (home.get file).isSome → Beside file path

theorem put_spec {home home' : Home} {content : HomeFile} (h : put home path content = some home') :
    home' = home.set path content ∧ Wrote home home' path := by
  obtain ⟨hFree, hSome⟩ := Option.ite_none_left_eq_some.mp h
  cases hSome
  exact ⟨rfl, onlyAt_set home path content, fun _ => blocked_eq_false.mp (by simpa using hFree)⟩

theorem wrote_self (home : Home) (hTree : IsTree home) : Wrote home home path :=
  ⟨fun _ _ => rfl, fun hThere file hFile => hTree file path (.inr hFile) (.inr hThere)⟩

theorem wrote_apply {home home' : Home} {edit : Edit} (h : edit.apply home = some home') :
    Wrote home home' edit.path := by
  cases edit with
  | write path content => exact (put_spec h).2
  | remove path =>
      cases h
      refine ⟨fun _ hNe => OrderedMap.get_delete_of_ne hNe, fun hThere => ?_⟩
      rw [Edit.path, OrderedMap.get_delete_self] at hThere
      cases hThere

theorem copyFile_spec {home home' : Home} {src dst : HomePath} (hTree : IsTree home)
    (h : copyFile home src dst = some home') :
    Wrote home home' dst ∧ ((home.get src).isSome → home'.get dst = home.get src) := by
  unfold copyFile at h
  cases hGet : home.get src with
  | none =>
      rw [hGet] at h
      cases h
      exact ⟨wrote_self home hTree, nofun⟩
  | some content =>
      rw [hGet] at h
      obtain ⟨rfl, hWrote⟩ := put_spec h
      exact ⟨hWrote, fun _ => OrderedMap.get_set_self⟩

theorem put_schemaPath {home : Home} (hTree : IsTree home) (content : HomeFile) :
    put home schemaPath content = some (home.set schemaPath content) := by
  have hFree : blocked home schemaPath = false :=
    blocked_eq_false.mpr fun file hFile => hTree file schemaPath (.inr hFile) (.inl rfl)
  rw [put, hFree]
  rfl

theorem wrote_tear {home : Home} (hTree : IsTree home) (path : HomePath)
    (torn : Option HomeFile) : Wrote home (tear home (some path) torn) path := by
  cases torn with
  | none => exact wrote_self home hTree
  | some content =>
      rw [tear]
      cases hPut : put home path content with
      | none => exact wrote_self home hTree
      | some home' => exact (put_spec hPut).2

theorem Wrote.tree {home home' : Home} (h : Wrote home home' path) (hTree : IsTree home)
    (hPath : Beside path schemaPath) : IsTree home' := by
  have hOld : ∀ file, file ≠ path → There home' file → There home file := by
    intro file hNe hThere
    exact hThere.imp_right fun hSome => by rwa [h.only file hNe] at hSome
  have hNew : ∀ file, file ≠ path → There home' file → There home' path → Beside file path := by
    intro file hNe hFile hHere
    rcases hHere with rfl | hSome
    · exact hTree file _ (hOld file hNe hFile) (.inl rfl)
    · rcases hOld file hNe hFile with rfl | hSome'
      · exact hPath.symm
      · exact h.beside hSome file hSome'
  intro file other hFile hOther
  by_cases hEq : file = path
  · subst hEq
    by_cases hEq' : other = file
    · exact fun _ => hEq'.symm
    · exact (hNew other hEq' hOther hFile).symm
  · by_cases hEq' : other = path
    · subst hEq'
      exact hNew file hEq hFile hOther
    · exact hTree file other (hOld file hEq hFile) (hOld other hEq' hOther)

theorem OnlyAt.schemaOf_eq {home home' : Home} (h : OnlyAt home home' path)
    (hPath : schemaPath ≠ path) : schemaOf home' = schemaOf home := by
  rw [schemaOf, schemaOf, readSchema, readSchema, h schemaPath hPath]

theorem schemaOf_marker (home : Home) (schema : Nat) (writer : String) :
    schemaOf (home.set schemaPath (.marker schema writer)) = schema := by
  rw [schemaOf, readSchema, OrderedMap.get_set_self]
  rfl

/-! ## When a restore undoes the steps -/

/-- A step from one of the schemas `s`, …, `t - 1`. -/
def InSpan (migrations : List Migration) (s t : Nat) (step : Migration) : Prop :=
  ∃ n, s ≤ n ∧ n < t ∧ migrationFrom migrations n = some step

def Migration.Declares (step : Migration) (file : HomePath) : Prop :=
  ∃ dir ∈ step.files, dir <+: file

/-- What the first step snapshots. -/
def SnapshotsFirst (migrations : List Migration) (s : Nat) (file : HomePath) : Prop :=
  ∃ step dir, migrationFrom migrations s = some step ∧ dir ∈ step.files ∧ dir ∉ LEDGERS ∧
    dir <+: file

/-- A file of the snapshot of schema `s` that its restore can put back into a home. -/
structure PutsBack (home : Home) (file : HomePath) : Prop where
  backup : file.head? ≠ some "backup"
  beside : ∀ other, There home other → Beside file other

def Clean (s : Nat) (home : Home) : Prop :=
  ∀ file, (home.get (backupPath s ++ file)).isSome → PutsBack home file

/-- No step touches the schema's own files, what is in the snapshot's place already can be
put back, and what any step declares the first one has snapshotted. -/
structure Undoable (migrations : List Migration) (s t : Nat) (origin : Home) : Prop where
  tree : IsTree origin
  own : ∀ step, InSpan migrations s t step → ∀ dir ∈ step.files, Own dir
  clean : Clean s origin
  first : ∀ step file, InSpan migrations s t step → step.Declares file → file ∉ LEDGERS →
    (origin.get file).isSome → SnapshotsFirst migrations s file

/-- The rewrite puts no file where the snapshot of schema `s` has a directory, and none below
one of its files. -/
def KeepsKinds (s : Nat) (home : Home) : MigrateStage → Prop
  | .rewriting _ _ (edit :: _) =>
      ∀ path ∈ filesBelow home (backupPath s), Beside (path.drop 2) edit.path
  | _ => True

/-- The rewrite of schema `s`, once it has begun, does not end early, by a death or by a
write that throws. -/
def GoesOn (s : Nat) (home : Home) : SchemaAction → MigrateStage → Prop
  | .die torn, .rewriting n begun _ => n = s → begun = false ∧ torn = none
  | .proceed, .rewriting n true (edit :: _) => n = s → (edit.apply home).isSome
  | _, _ => True

def SchemaAction.Careful (s : Nat) (w : SchemaWorld) (a : SchemaAction) : Prop :=
  ∀ call ∈ w.call, KeepsKinds s w.home call.stage ∧ GoesOn s w.home a call.stage

instance (s : Nat) (home : Home) : DecidablePred (KeepsKinds s home)
  | .rewriting _ _ (_ :: _) =>
      inferInstanceAs (Decidable (∀ path ∈ filesBelow home (backupPath s), _))
  | .rewriting _ _ [] | .loop _ | .snapshot .. | .copying .. => isTrue trivial

instance (s : Nat) (home : Home) (a : SchemaAction) : DecidablePred (GoesOn s home a) := by
  intro stage
  unfold GoesOn
  split <;> infer_instance

instance (s : Nat) (w : SchemaWorld) (a : SchemaAction) : Decidable (a.Careful s w) :=
  inferInstanceAs (Decidable (∀ call ∈ w.call, _))

theorem KeepsKinds.beside {s n : Nat} {home : Home} {begun : Bool} {edit : Edit}
    {todo : List Edit} (h : KeepsKinds s home (.rewriting n begun (edit :: todo)))
    {file : HomePath} (hFile : (home.get (backupPath s ++ file)).isSome) : Beside file edit.path :=
  h _ (mem_filesBelow.mpr ⟨hFile, List.prefix_append _ _⟩)

/-! ## The invariant -/

section Invariant

variable (migrations : List Migration) (s t : Nat) (origin : Home)

/-- A file of the home at schema `s` that is to be snapshotted. -/
structure Tracked (file : HomePath) : Prop where
  there : (origin.get file).isSome
  declared : SnapshotsFirst migrations s file

/-- The snapshot has a file as it was. -/
def Snapped (home : Home) (file : HomePath) : Prop :=
  home.get (backupPath s ++ file) = origin.get file

/-- A stage works on paths of its step, and its step is one of the span. -/
def StageOwn : MigrateStage → Prop
  | .loop n => s ≤ n
  | .snapshot n step files => s ≤ n ∧ n < t ∧ migrationFrom migrations n = some step ∧
      ∀ dir ∈ files, Own dir
  | .copying n step todo files => s ≤ n ∧ n < t ∧ migrationFrom migrations n = some step ∧
      (∀ file ∈ todo, Own file) ∧ ∀ dir ∈ files, Own dir
  | .rewriting n _ todo => s ≤ n ∧ ∀ edit ∈ todo, Own edit.path

/-- How far the first step has got, before it changes anything. -/
def FirstStage (home : Home) : MigrateStage → Prop
  | .loop n => n = s
  | .snapshot n _ files => n = s ∧ ∀ file, Tracked migrations s origin file →
      Snapped s origin home file ∨ ∃ dir ∈ files, dir <+: file
  | .copying n _ todo files => n = s ∧ (∀ file ∈ todo, (origin.get file).isSome) ∧
      ∀ file, Tracked migrations s origin file →
        Snapped s origin home file ∨ file ∈ todo ∨ ∃ dir ∈ files, dir <+: file
  | .rewriting n begun _ => n = s ∧ begun = false ∧ ∀ file, Tracked migrations s origin file →
      Snapped s origin home file

/-- The home is as it was at schema `s`. -/
structure Fresh (w : SchemaWorld) : Prop where
  schema : schemaOf w.home = s
  kept : ∀ file, Own file → w.home.get file = origin.get file
  running : w.completed = false
  stage : ∀ call, w.call = some call → FirstStage migrations s origin w.home call.stage

/-- A stage after the first change. -/
def LaterStage (home : Home) : MigrateStage → Prop
  | .rewriting n begun _ => (n = s ∧ begun = true) ∨ (s < n ∧ s < schemaOf home)
  | .loop n => s < n ∧ s < schemaOf home
  | .snapshot n _ _ => s < n ∧ s < schemaOf home
  | .copying n _ _ _ => s < n ∧ s < schemaOf home

/-- The snapshot of schema `s` is complete and stays. -/
structure Saved (w : SchemaWorld) : Prop where
  snapped : ∀ file, Tracked migrations s origin file → Snapped s origin w.home file
  idle : w.call = none → s < schemaOf w.home
  stage : ∀ call, w.call = some call → LaterStage s w.home call.stage

structure Restorable (w : SchemaWorld) : Prop where
  tree : IsTree w.home
  clean : Clean s w.home
  own : ∀ call, w.call = some call → StageOwn migrations s t call.stage
  progress : Fresh migrations s origin w ∨ Saved migrations s origin w

end Invariant

section Step

variable {migrations : List Migration} {s t : Nat} {origin : Home} {w : SchemaWorld}

/-- A write elsewhere leaves the snapshot of schema `s` alone. -/
theorem OnlyAt.snapped {home home' : Home} {path : HomePath} (h : OnlyAt home home' path)
    (hPath : ∀ file, path ≠ backupPath s ++ file)
    (hSnapped : ∀ file, Tracked migrations s origin file → Snapped s origin home file) :
    ∀ file, Tracked migrations s origin file → Snapped s origin home' file :=
  fun file hFile => (h _ (hPath file).symm).trans (hSnapped file hFile)

theorem snapped_marker {home : Home} (schema : Nat) (writer : String)
    (hSnapped : ∀ file, Tracked migrations s origin file → Snapped s origin home file) :
    ∀ file, Tracked migrations s origin file →
      Snapped s origin (home.set schemaPath (.marker schema writer)) file :=
  (onlyAt_set home schemaPath _).snapped (fun _ => schemaPath_ne_backup) hSnapped

theorem Wrote.clean {home home' : Home} {path : HomePath} (h : Wrote home home' path)
    (hTree : IsTree home) (hClean : Clean s home) (hPath : Beside path schemaPath)
    (hNew : ∀ file, path = backupPath s ++ file → Own file ∧
      ∀ other, Own other → (home.get other).isSome → Beside file other)
    (hOld : ∀ file, (home.get (backupPath s ++ file)).isSome → Beside file path) :
    Clean s home' := by
  have hTree' := h.tree hTree hPath
  intro file hSome
  by_cases hEq : path = backupPath s ++ file
  · obtain ⟨hOwn, hBeside⟩ := hNew file hEq
    refine ⟨hOwn.backup, fun other hOther => ?_⟩
    have hNonempty : other ≠ [] := by
      rintro rfl
      exact absurd (hTree' [] _ hOther (.inl rfl) (.inl (List.nil_prefix ..))) (by decide)
    by_cases hOwn' : Own other
    · refine hBeside other hOwn' ?_
      rcases hOther with rfl | hSome'
      · exact absurd rfl hOwn'.ne_schemaPath
      · rwa [h.only other (hEq ▸ hOwn'.ne_backup)] at hSome'
    · refine beside_of_head hOwn.nonempty hNonempty fun hHead => hOwn' ⟨hNonempty, ?_, ?_⟩
      · exact hHead ▸ hOwn.backup
      · exact hHead ▸ hOwn.schema
  · rw [h.only _ (Ne.symm hEq)] at hSome
    have hBack := hClean file hSome
    refine ⟨hBack.backup, fun other hOther => ?_⟩
    by_cases hEq' : other = path
    · exact hEq' ▸ hOld file hSome
    · exact hBack.beside other (hOther.imp_right fun hSome' => by rwa [h.only other hEq'] at hSome')

theorem backup_ne_of_lt {n : Nat} (h : s < n) (file : HomePath) :
    ∀ file', backupPath n ++ file ≠ backupPath s ++ file' := by
  intro file' hEq
  have hSame := (backup_inj hEq).1
  omega

/-- A call whose write throws is over. -/
theorem goOn_elim {P : SchemaWorld → Prop} {home : Option Home} {call : MigrateCall}
    (hThrown : home = none → P { w with call := none })
    (hWent : ∀ home', home = some home' → P { w with home := home', call := some call }) :
    P (w.goOn home call) := by
  cases hHome : home with
  | none => exact hThrown hHome
  | some home' => exact hWent home' hHome

theorem wrote_goOn {home : Option Home} {call : MigrateCall} {path : HomePath}
    (hTree : IsTree w.home) (h : ∀ home', home = some home' → Wrote w.home home' path) :
    Wrote w.home (w.goOn home call).home path := by
  cases hHome : home with
  | none => exact wrote_self w.home hTree
  | some home' => exact h home' hHome

theorem goOn_call {home : Option Home} {call call' : MigrateCall}
    (h : (w.goOn home call).call = some call') : call' = call := by
  cases home with
  | none => cases h
  | some home => exact (Option.some.inj h).symm

variable {stage : MigrateStage} {writer : String}

/-- A step's stages keep to its own paths. -/
theorem own_proceed (hOwn : ∀ step, InSpan migrations s t step → ∀ dir ∈ step.files, Own dir)
    (h : StageOwn migrations s t stage) :
    ∀ call, (w.proceed t migrations ⟨writer, stage⟩).call = some call →
      StageOwn migrations s t call.stage := by
  intro call hCall
  cases stage with
  | loop n =>
      simp only [SchemaWorld.proceed] at hCall
      split at hCall
      · rename_i hLt
        split at hCall
        · cases hCall
        · rename_i step hStep
          cases hCall
          refine ⟨h, hLt, hStep, ?_⟩
          intro dir hDir
          exact hOwn step ⟨n, h, hLt, hStep⟩ dir (List.mem_of_mem_filter hDir)
      · split at hCall <;> cases hCall
  | snapshot n step files =>
      obtain ⟨hFrom, hLt, hStep, hFiles⟩ := h
      cases files with
      | nil =>
          cases hCall
          refine ⟨hFrom, ?_⟩
          intro edit hEdit
          obtain ⟨dir, hDir, hBelow⟩ := step.declared w.home edit hEdit
          exact (hOwn step ⟨n, hFrom, hLt, hStep⟩ dir hDir).below hBelow
      | cons dir files =>
          cases hCall
          refine ⟨hFrom, hLt, hStep, ?_, fun d hd => hFiles d (List.mem_cons_of_mem _ hd)⟩
          intro file hFile
          exact (hFiles dir (List.mem_cons_self ..)).below (mem_filesBelow.mp hFile).2
  | copying n step todo files =>
      obtain ⟨hFrom, hLt, hStep, hTodo, hFiles⟩ := h
      cases todo with
      | nil =>
          cases hCall
          exact ⟨hFrom, hLt, hStep, hFiles⟩
      | cons file todo =>
          obtain rfl := goOn_call hCall
          exact ⟨hFrom, hLt, hStep, fun f hf => hTodo f (List.mem_cons_of_mem _ hf), hFiles⟩
  | rewriting n begun todo =>
      obtain ⟨hFrom, hTodo⟩ := h
      cases todo with
      | nil =>
          obtain rfl := goOn_call hCall
          exact Nat.le_succ_of_le hFrom
      | cons edit todo =>
          obtain rfl := goOn_call hCall
          exact ⟨hFrom, fun e he => hTodo e (List.mem_cons_of_mem _ he)⟩

variable (migrations t writer) in
/-- A step writes one file at most, the marker or the one that its stage is writing. -/
theorem wrote_proceed (hTree : IsTree w.home) :
    ∃ path, (path = schemaPath ∨ stage.writing = some path) ∧
      Wrote w.home (w.proceed t migrations ⟨writer, stage⟩).home path := by
  have hSame : ∃ path, (path = schemaPath ∨ stage.writing = some path) ∧
      Wrote w.home w.home path := ⟨schemaPath, .inl rfl, wrote_self w.home hTree⟩
  cases stage with
  | loop n =>
      simp only [SchemaWorld.proceed, put_schemaPath hTree]
      split
      · split <;> exact hSame
      · exact ⟨schemaPath, .inl rfl, (put_spec (put_schemaPath hTree _)).2⟩
  | snapshot n step files => cases files <;> exact hSame
  | copying n step todo files =>
      cases todo with
      | nil => exact hSame
      | cons file todo =>
          exact ⟨_, .inr rfl, wrote_goOn hTree fun _ hHome => (copyFile_spec hTree hHome).1⟩
  | rewriting n begun todo =>
      cases todo with
      | nil =>
          exact ⟨schemaPath, .inl rfl, wrote_goOn hTree fun _ hHome => (put_spec hHome).2⟩
      | cons edit todo =>
          exact ⟨_, .inr rfl, wrote_goOn hTree fun _ hHome => wrote_apply hHome⟩

variable (stage) in
theorem wrote_die (hTree : IsTree w.home) (torn : Option HomeFile) :
    ∃ path, (path = schemaPath ∨ stage.writing = some path) ∧
      Wrote w.home (tear w.home stage.writing torn) path := by
  cases stage.writing with
  | none => exact ⟨schemaPath, .inl rfl, wrote_self w.home hTree⟩
  | some path => exact ⟨path, .inr rfl, wrote_tear hTree path torn⟩

/-- What a stage writes leaves a directory tree whose snapshot can be put back. -/
theorem Wrote.clean_of_writing {home' : Home} {path : HomePath} (h : Wrote w.home home' path)
    (hPath : path = schemaPath ∨ stage.writing = some path) (hOwn : StageOwn migrations s t stage)
    (hTree : IsTree w.home) (hClean : Clean s w.home)
    (hCopied : ∀ step file todo files, stage = .copying s step (file :: todo) files →
      ∀ other, Own other → (w.home.get other).isSome → Beside file other)
    (hKinds : KeepsKinds s w.home stage) : IsTree home' ∧ Clean s home' := by
  rcases hPath with rfl | hWriting
  · have hSelf : Beside schemaPath schemaPath := fun _ => rfl
    refine ⟨h.tree hTree hSelf, h.clean hTree hClean hSelf ?_ ?_⟩
    · exact fun file hEq => absurd hEq schemaPath_ne_backup
    · exact fun file hFile => (hClean file hFile).beside _ (.inl rfl)
  · cases stage with
    | loop n => cases hWriting
    | snapshot n step files => cases hWriting
    | copying n step todo files =>
        cases todo with
        | nil => cases hWriting
        | cons file todo =>
            cases hWriting
            have hMarker : Beside (backupPath n ++ file) schemaPath :=
              (beside_backup (by decide) (by decide)).symm
            refine ⟨h.tree hTree hMarker, h.clean hTree hClean hMarker ?_ ?_⟩
            · intro file' hEq
              obtain ⟨rfl, rfl⟩ := backup_inj hEq
              exact ⟨hOwn.2.2.2.1 file (List.mem_cons_self ..), hCopied step file todo files rfl⟩
            · intro file' hFile'
              have hBack := hClean file' hFile'
              refine beside_backup ?_ hBack.backup
              rintro rfl
              exact absurd (hBack.beside _ (.inl rfl) (.inl (List.nil_prefix ..))) (by decide)
    | rewriting n begun todo =>
        cases todo with
        | nil => cases hWriting
        | cons edit todo =>
            cases hWriting
            have hPath := hOwn.2 edit (List.mem_cons_self ..)
            have hMarker := hPath.beside_schemaPath
            refine ⟨h.tree hTree hMarker, h.clean hTree hClean hMarker ?_ ?_⟩
            · exact fun file hEq => absurd hEq hPath.ne_backup
            · exact fun file hFile => hKinds.beside hFile

theorem saved_proceed (hLater : LaterStage s w.home stage) (hSpan : s < t) (hTree : IsTree w.home)
    (hOwn : StageOwn migrations s t stage) (hGoesOn : GoesOn s w.home .proceed stage)
    (hSnapped : ∀ file, Tracked migrations s origin file → Snapped s origin w.home file) :
    Saved migrations s origin (w.proceed t migrations ⟨writer, stage⟩) := by
  cases stage with
  | loop n =>
      simp only [SchemaWorld.proceed, put_schemaPath hTree]
      split
      · split
        · exact ⟨hSnapped, fun _ => hLater.2, nofun⟩
        · refine ⟨hSnapped, nofun, ?_⟩
          rintro call ⟨⟩
          exact hLater
      · refine ⟨snapped_marker t writer hSnapped, fun _ => ?_, nofun⟩
        rw [schemaOf_marker]
        exact hSpan
  | snapshot n step files =>
      cases files with
      | nil =>
          refine ⟨hSnapped, nofun, ?_⟩
          rintro call ⟨⟩
          exact .inr hLater
      | cons dir files =>
          refine ⟨hSnapped, nofun, ?_⟩
          rintro call ⟨⟩
          exact hLater
  | copying n step todo files =>
      cases todo with
      | nil =>
          refine ⟨hSnapped, nofun, ?_⟩
          rintro call ⟨⟩
          exact hLater
      | cons file todo =>
          refine goOn_elim (fun _ => ⟨hSnapped, fun _ => hLater.2, nofun⟩) fun home' hHome => ?_
          have hOnly := (copyFile_spec hTree hHome).1.only
          refine ⟨hOnly.snapped (backup_ne_of_lt hLater.1 file) hSnapped, nofun, ?_⟩
          rintro call ⟨⟩
          refine ⟨hLater.1, ?_⟩
          show s < schemaOf home'
          rw [hOnly.schemaOf_eq schemaPath_ne_backup]
          exact hLater.2
  | rewriting n begun todo =>
      cases todo with
      | nil =>
          simp only [SchemaWorld.proceed, put_schemaPath hTree, SchemaWorld.goOn]
          refine ⟨snapped_marker (n + 1) writer hSnapped, nofun, ?_⟩
          rintro call ⟨⟩
          have hFrom := hOwn.1
          refine ⟨by omega, ?_⟩
          show s < schemaOf (w.home.set schemaPath (.marker (n + 1) writer))
          rw [schemaOf_marker]
          omega
      | cons edit todo =>
          refine goOn_elim ?_ fun home' hHome => ?_
          · intro hThrown
            rcases hLater with ⟨rfl, rfl⟩ | hLater
            · have hSome := hGoesOn rfl
              rw [hThrown] at hSome
              cases hSome
            · exact ⟨hSnapped, fun _ => hLater.2, nofun⟩
          have hOnly := (wrote_apply hHome).only
          have hPath := hOwn.2 edit (List.mem_cons_self ..)
          refine ⟨hOnly.snapped (fun _ => hPath.ne_backup) hSnapped, nofun, ?_⟩
          rintro call ⟨⟩
          show (n = s ∧ true = true) ∨ (s < n ∧ s < schemaOf home')
          rw [hOnly.schemaOf_eq hPath.ne_schemaPath.symm]
          rcases hLater with ⟨hFirst, -⟩ | hLater
          · exact .inl ⟨hFirst, rfl⟩
          · exact .inr hLater

/-- A tracked file is still where it was. -/
theorem Fresh.get_tracked (h : Fresh migrations s origin w) (hUndo : Undoable migrations s t origin)
    (hSpan : s < t) {file : HomePath} (hFile : Tracked migrations s origin file) :
    w.home.get file = origin.get file := by
  obtain ⟨step, dir, hStep, hDir, -, hBelow⟩ := hFile.declared
  exact h.kept file ((hUndo.own step ⟨s, le_rfl, hSpan, hStep⟩ dir hDir).below hBelow)

/-- The first step copies what it declares, and then begins its rewrite. -/
theorem fresh_proceed (hUndo : Undoable migrations s t origin) (hSpan : s < t)
    (hTree : IsTree w.home) (hFresh : Fresh migrations s origin w)
    (hOwn : StageOwn migrations s t stage) (hFirst : FirstStage migrations s origin w.home stage) :
    Fresh migrations s origin (w.proceed t migrations ⟨writer, stage⟩) ∨
      Saved migrations s origin (w.proceed t migrations ⟨writer, stage⟩) := by
  have hThere : ∀ file, Tracked migrations s origin file → (w.home.get file).isSome := by
    intro file hFile
    rw [hFresh.get_tracked hUndo hSpan hFile]
    exact hFile.there
  have hThrown : Fresh migrations s origin { w with call := none } :=
    ⟨hFresh.schema, hFresh.kept, hFresh.running, nofun⟩
  have hStays : ∀ {call}, FirstStage migrations s origin w.home call.stage →
      Fresh migrations s origin { w with call := some call } := by
    intro call hStage
    refine ⟨hFresh.schema, hFresh.kept, hFresh.running, ?_⟩
    rintro call ⟨⟩
    exact hStage
  cases stage with
  | loop n =>
      obtain rfl : n = s := hFirst
      left
      simp only [SchemaWorld.proceed, if_pos hSpan]
      split
      · exact hThrown
      · rename_i step hStep
        refine hStays ⟨rfl, fun file hFile => .inr ?_⟩
        obtain ⟨step', dir, hStep', hDir, hLedger, hBelow⟩ := hFile.declared
        rw [hStep] at hStep'
        cases hStep'
        refine ⟨dir, List.mem_filter.mpr ⟨hDir, ?_⟩, hBelow⟩
        rw [Bool.and_eq_true, decide_eq_true_iff]
        exact ⟨hLedger, existsAt_of_below (hThere file hFile) hBelow⟩
  | snapshot n step files =>
      obtain ⟨rfl, hFiles⟩ := hFirst
      left
      cases files with
      | nil =>
          refine hStays ⟨rfl, rfl, fun file hFile => ?_⟩
          rcases hFiles file hFile with hDone | ⟨dir, hDir, -⟩
          · exact hDone
          · cases hDir
      | cons dir files =>
          refine hStays ⟨rfl, fun file hFile => ?_, fun file hFile => ?_⟩
          · obtain ⟨hSome, hBelow⟩ := mem_filesBelow.mp hFile
            have hOwnFile := (hOwn.2.2.2 dir (List.mem_cons_self ..)).below hBelow
            rwa [hFresh.kept file hOwnFile] at hSome
          rcases hFiles file hFile with hDone | ⟨dir', hDir, hBelow⟩
          · exact .inl hDone
          · rcases List.mem_cons.mp hDir with rfl | hDir
            · exact .inr (.inl (mem_filesBelow.mpr ⟨hThere file hFile, hBelow⟩))
            · exact .inr (.inr ⟨dir', hDir, hBelow⟩)
  | copying n step todo files =>
      obtain ⟨rfl, hOrigin, hTodo⟩ := hFirst
      left
      cases todo with
      | nil =>
          refine hStays ⟨rfl, fun file hFile => ?_⟩
          rcases hTodo file hFile with hDone | hMem | hLeft
          · exact .inl hDone
          · cases hMem
          · exact .inr hLeft
      | cons copied todo =>
          refine goOn_elim (fun _ => hThrown) fun home' hHome => ?_
          obtain ⟨⟨hOnly, -⟩, hCopied⟩ := copyFile_spec hTree hHome
          refine ⟨(hOnly.schemaOf_eq schemaPath_ne_backup).trans hFresh.schema, ?_,
            hFresh.running, ?_⟩
          · intro file hFile
            exact (hOnly file hFile.ne_backup).trans (hFresh.kept file hFile)
          · rintro call ⟨⟩
            refine ⟨rfl, fun file hMem => hOrigin file (List.mem_cons_of_mem _ hMem),
              fun file hFile => ?_⟩
            by_cases hSame : file = copied
            · subst hSame
              left
              exact (hCopied (hThere file hFile)).trans (hFresh.get_tracked hUndo hSpan hFile)
            · have hNe : backupPath n ++ file ≠ backupPath n ++ copied :=
                fun hEq => hSame (backup_inj hEq).2
              rcases hTodo file hFile with hDone | hMem | hLeft
              · exact .inl ((hOnly _ hNe).trans hDone)
              · rcases List.mem_cons.mp hMem with hEq | hMem
                · exact absurd hEq hSame
                · exact .inr (.inl hMem)
              · exact .inr (.inr hLeft)
  | rewriting n begun todo =>
      obtain ⟨rfl, rfl, hSnapped⟩ := hFirst
      cases todo with
      | nil =>
          right
          simp only [SchemaWorld.proceed, put_schemaPath hTree, SchemaWorld.goOn]
          refine ⟨snapped_marker (n + 1) writer hSnapped, nofun, ?_⟩
          rintro call ⟨⟩
          refine ⟨Nat.lt_succ_self n, ?_⟩
          show n < schemaOf (w.home.set schemaPath (.marker (n + 1) writer))
          rw [schemaOf_marker]
          exact Nat.lt_succ_self n
      | cons edit todo =>
          have hPath := hOwn.2 edit (List.mem_cons_self ..)
          refine goOn_elim (P := fun w' => Fresh migrations n origin w' ∨ Saved migrations n origin w')
            (fun _ => .inl hThrown) fun home' hHome => .inr ⟨?_, nofun, ?_⟩
          · exact (wrote_apply hHome).only.snapped (fun _ => hPath.ne_backup) hSnapped
          · rintro call ⟨⟩
            exact .inl ⟨rfl, rfl⟩

/-- A process that dies before the rewrite leaves the home as it was. -/
theorem fresh_die {torn : Option HomeFile} {completed : Bool} (hTree : IsTree w.home)
    (hFresh : Fresh migrations s origin w) (hFirst : FirstStage migrations s origin w.home stage)
    (hRunning : completed = w.completed) (hGoesOn : GoesOn s w.home (.die torn) stage) :
    Fresh migrations s origin ⟨tear w.home stage.writing torn, none, completed⟩ := by
  have hHome : ∀ {home}, schemaOf home = schemaOf w.home →
      (∀ file, Own file → home.get file = w.home.get file) →
      Fresh migrations s origin ⟨home, none, completed⟩ := by
    intro home hSchema hKept
    refine ⟨hSchema.trans hFresh.schema, ?_, hRunning.trans hFresh.running, nofun⟩
    exact fun file hFile => (hKept file hFile).trans (hFresh.kept file hFile)
  cases stage with
  | loop n => exact hHome rfl fun _ _ => rfl
  | snapshot n step files => exact hHome rfl fun _ _ => rfl
  | copying n step todo files =>
      cases todo with
      | nil => exact hHome rfl fun _ _ => rfl
      | cons file todo =>
          have hOnly := (wrote_tear hTree (backupPath n ++ file) torn).only
          exact hHome (hOnly.schemaOf_eq schemaPath_ne_backup) fun _ hFile =>
            hOnly _ hFile.ne_backup
  | rewriting n begun todo =>
      obtain ⟨rfl, -, -⟩ := hFirst
      obtain ⟨-, rfl⟩ := hGoesOn rfl
      cases todo with
      | nil => exact hHome rfl fun _ _ => rfl
      | cons edit todo => exact hHome rfl fun _ _ => rfl

/-- A process that dies later leaves the snapshot as it was. -/
theorem saved_die {torn : Option HomeFile} {completed : Bool} (hTree : IsTree w.home)
    (hOwn : StageOwn migrations s t stage) (hLater : LaterStage s w.home stage)
    (hSnapped : ∀ file, Tracked migrations s origin file → Snapped s origin w.home file)
    (hGoesOn : GoesOn s w.home (.die torn) stage) :
    Saved migrations s origin ⟨tear w.home stage.writing torn, none, completed⟩ := by
  cases stage with
  | loop n => exact ⟨hSnapped, fun _ => hLater.2, nofun⟩
  | snapshot n step files => exact ⟨hSnapped, fun _ => hLater.2, nofun⟩
  | copying n step todo files =>
      cases todo with
      | nil => exact ⟨hSnapped, fun _ => hLater.2, nofun⟩
      | cons file todo =>
          have hOnly := (wrote_tear hTree (backupPath n ++ file) torn).only
          refine ⟨hOnly.snapped (backup_ne_of_lt hLater.1 file) hSnapped, fun _ => ?_, nofun⟩
          show s < schemaOf (tear w.home (some (backupPath n ++ file)) torn)
          rw [hOnly.schemaOf_eq schemaPath_ne_backup]
          exact hLater.2
  | rewriting n begun todo =>
      rcases hLater with ⟨rfl, rfl⟩ | hLater
      · cases (hGoesOn rfl).1
      · cases todo with
        | nil => exact ⟨hSnapped, fun _ => hLater.2, nofun⟩
        | cons edit todo =>
            have hOnly := (wrote_tear hTree edit.path torn).only
            have hPath := hOwn.2 edit (List.mem_cons_self ..)
            refine ⟨hOnly.snapped (fun _ => hPath.ne_backup) hSnapped, fun _ => ?_, nofun⟩
            show s < schemaOf (tear w.home (some edit.path) torn)
            rw [hOnly.schemaOf_eq hPath.ne_schemaPath.symm]
            exact hLater.2

/-- What the first step copies into its snapshot is beside the files of the home. -/
theorem Restorable.copied (h : Restorable migrations s t origin w)
    (hUndo : Undoable migrations s t origin) (hCall : w.call = some ⟨writer, stage⟩) :
    ∀ step file todo files, stage = .copying s step (file :: todo) files →
      ∀ other, Own other → (w.home.get other).isSome → Beside file other := by
  rintro step file todo files rfl other hOther hSome
  rcases h.progress with hFresh | hSaved
  · rw [hFresh.kept other hOther] at hSome
    have hFile := (hFresh.stage _ hCall).2.1 file (List.mem_cons_self ..)
    exact hUndo.tree file other (.inr hFile) (.inr hSome)
  · exact absurd (hSaved.stage _ hCall).1 (Nat.lt_irrefl s)

/-- Every careful step keeps the home restorable. -/
theorem restorable_step {root : String} {a : SchemaAction} {w' : SchemaWorld}
    (hUndo : Undoable migrations s t origin) (hSpan : s < t)
    (h : Restorable migrations s t origin w) (hCareful : a.Careful s w)
    (hStep : schemaStep root t migrations w a = some w') : Restorable migrations s t origin w' := by
  cases a with
  | start writer =>
      simp only [schemaStep] at hStep
      split at hStep
      · cases hStep
      · rename_i hIdle
        split at hStep
        · cases hStep
          exact h
        · cases hStep
          have hNone := Option.not_isSome_iff_eq_none.mp hIdle
          rcases h.progress with hFresh | hSaved
          · refine ⟨h.tree, h.clean, ?_, .inl ⟨hFresh.schema, hFresh.kept, rfl, ?_⟩⟩
            · rintro call ⟨⟩
              exact hFresh.schema.ge
            · rintro call ⟨⟩
              exact hFresh.schema
          · have hLt := hSaved.idle hNone
            refine ⟨h.tree, h.clean, ?_, .inr ⟨hSaved.snapped, nofun, ?_⟩⟩
            · rintro call ⟨⟩
              exact hLt.le
            · rintro call ⟨⟩
              exact ⟨hLt, hLt⟩
  | proceed =>
      obtain ⟨⟨writer, stage⟩, hCall, rfl⟩ := Option.map_eq_some_iff.mp hStep
      obtain ⟨hKinds, hGoesOn⟩ := hCareful _ hCall
      have hOwn := h.own _ hCall
      obtain ⟨path, hPath, hWrote⟩ := wrote_proceed migrations t writer h.tree
      obtain ⟨hTree, hClean⟩ := hWrote.clean_of_writing hPath hOwn h.tree h.clean
        (h.copied hUndo hCall) hKinds
      refine ⟨hTree, hClean, own_proceed hUndo.own hOwn, ?_⟩
      rcases h.progress with hFresh | hSaved
      · exact fresh_proceed hUndo hSpan h.tree hFresh hOwn (hFresh.stage _ hCall)
      · exact .inr (saved_proceed (hSaved.stage _ hCall) hSpan h.tree hOwn hGoesOn hSaved.snapped)
  | die torn =>
      obtain ⟨⟨writer, stage⟩, hCall, rfl⟩ := Option.map_eq_some_iff.mp hStep
      obtain ⟨hKinds, hGoesOn⟩ := hCareful _ hCall
      have hOwn := h.own _ hCall
      obtain ⟨path, hPath, hWrote⟩ := wrote_die stage h.tree torn
      obtain ⟨hTree, hClean⟩ := hWrote.clean_of_writing hPath hOwn h.tree h.clean
        (h.copied hUndo hCall) hKinds
      refine ⟨hTree, hClean, nofun, ?_⟩
      rcases h.progress with hFresh | hSaved
      · exact .inl (fresh_die h.tree hFresh (hFresh.stage _ hCall) rfl hGoesOn)
      · exact .inr (saved_die h.tree hOwn (hSaved.stage _ hCall) hSaved.snapped hGoesOn)

end Step

/-! ## The restore -/

section Restore

variable {n : Nat} {home : Home}

theorem mem_snapshotFiles {file : HomePath} :
    file ∈ snapshotFiles home n ↔ (home.get (backupPath n ++ file)).isSome ∧ file ∉ LEDGERS := by
  rw [snapshotFiles, List.mem_filter, decide_eq_true_iff, List.mem_map]
  refine and_congr_left fun _ => ?_
  constructor
  · rintro ⟨path, hPath, rfl⟩
    obtain ⟨hSome, rest, rfl⟩ := mem_filesBelow.mp hPath
    exact hSome
  · intro hSome
    exact ⟨backupPath n ++ file, mem_filesBelow.mpr ⟨hSome, List.prefix_append _ _⟩, rfl⟩

/-- Files that stand beside each other, and beside those of the home, are put back over what
is there. -/
theorem putBack_spec {files : List HomePath} (hTree : IsTree home)
    (hFiles : ∀ file ∈ files, file.head? ≠ some "backup")
    (hBeside : ∀ file ∈ files, ∀ other, There home other ∨ other ∈ files → Beside file other) :
    ∃ home', putBack n home files = some home' ∧ IsTree home' ∧
      (∀ file, file ∉ files → home'.get file = home.get file) ∧
      ∀ file ∈ files, (home.get (backupPath n ++ file)).isSome →
        home'.get file = home.get (backupPath n ++ file) := by
  induction files generalizing home with
  | nil => exact ⟨home, rfl, hTree, fun _ _ => rfl, by simp⟩
  | cons copied files ih =>
      have hFree : blocked home copied = false := blocked_eq_false.mpr fun file hFile =>
        (hBeside copied (List.mem_cons_self ..) file (.inl (.inr hFile))).symm
      obtain ⟨middle, hMiddle⟩ : ∃ middle,
          copyFile home (backupPath n ++ copied) copied = some middle := by
        unfold copyFile put
        rw [hFree]
        cases home.get (backupPath n ++ copied) with
        | none => exact ⟨_, rfl⟩
        | some content => exact ⟨_, rfl⟩
      obtain ⟨hWrote, hCopied⟩ := copyFile_spec hTree hMiddle
      -- no copy lands in the snapshot
      have hKept : ∀ file, middle.get (backupPath n ++ file) = home.get (backupPath n ++ file) := by
        intro file
        refine hWrote.only _ ?_
        intro hEq
        exact hFiles copied (List.mem_cons_self ..) (by rw [← hEq]; rfl)
      obtain ⟨home', hRest, hTree', hOthers, hBack⟩ := ih
        (hWrote.tree hTree (hBeside copied (List.mem_cons_self ..) _ (.inl (.inl rfl))))
        (fun file hFile => hFiles file (List.mem_cons_of_mem _ hFile))
        (by
          intro file hFile other hOther
          refine hBeside file (List.mem_cons_of_mem _ hFile) other ?_
          by_cases hEq : other = copied
          · exact .inr (hEq ▸ List.mem_cons_self ..)
          · refine hOther.imp (fun hThere => ?_) (List.mem_cons_of_mem _)
            exact hThere.imp_right fun hSome => by rwa [hWrote.only other hEq] at hSome)
      refine ⟨home', ?_, hTree', ?_, ?_⟩
      · rw [putBack, List.foldlM_cons, hMiddle]
        exact hRest
      · intro file hNot
        rw [List.mem_cons, not_or] at hNot
        exact (hOthers file hNot.2).trans (hWrote.only file hNot.1)
      · intro file hMem hSome
        by_cases hLater : file ∈ files
        · exact (hBack file hLater (by rwa [hKept file])).trans (hKept file)
        · obtain rfl : file = copied := (List.mem_cons.mp hMem).resolve_right hLater
          exact (hOthers file hLater).trans (hCopied hSome)

/-- A restore of a snapshot that can be put back. -/
theorem restoreSchema_spec (writer : String) (hTree : IsTree home) (hClean : Clean n home) :
    ∃ restored, restoreSchema home n writer = some restored ∧
      readSchema restored = some (n, writer) ∧
      (∀ file, file ≠ schemaPath → file ∉ snapshotFiles home n →
        restored.get file = home.get file) ∧
      ∀ file, file ≠ schemaPath → file ∈ snapshotFiles home n →
        restored.get file = home.get (backupPath n ++ file) := by
  have hThere : ∀ file ∈ snapshotFiles home n, (home.get (backupPath n ++ file)).isSome :=
    fun file hFile => (mem_snapshotFiles.mp hFile).1
  obtain ⟨home', hBack, hTree', hOthers, hFiles⟩ := putBack_spec (n := n) hTree
    (fun file hFile => (hClean file (hThere file hFile)).backup)
    (by
      intro file hFile other hOther
      rcases hOther with hHome | hOther
      · exact (hClean file (hThere file hFile)).beside other hHome
      · exact beside_of_backup (hTree _ _ (.inr (hThere file hFile)) (.inr (hThere other hOther))))
  refine ⟨home'.set schemaPath (.marker n writer), ?_, ?_, ?_, ?_⟩
  · rw [restoreSchema, hBack]
    exact put_schemaPath hTree' _
  · rw [readSchema, OrderedMap.get_set_self]
  · intro file hNe hNot
    exact (OrderedMap.get_set_of_ne hNe).trans (hOthers file hNot)
  · intro file hNe hFile
    exact (OrderedMap.get_set_of_ne hNe).trans (hFiles file hFile (hThere file hFile))

end Restore

/-- A restore undoes the steps from schema `s` to `t`: it stamps schema `s`, every file
that was there and that a step declares has its content again, and the ledgers stay. -/
structure Undone (migrations : List Migration) (s t : Nat) (origin home restored : Home)
    (writer : String) : Prop where
  stamped : readSchema restored = some (s, writer)
  undone : ∀ step file, InSpan migrations s t step → step.Declares file → file ∉ LEDGERS →
    (origin.get file).isSome → restored.get file = origin.get file
  ledgers : ∀ file ∈ LEDGERS, restored.get file = home.get file

/-- The restore does not throw, and undoes the steps. -/
def Restored (migrations : List Migration) (s t : Nat) (origin home : Home) (writer : String) :
    Prop :=
  ∃ restored, restoreSchema home s writer = some restored ∧
    Undone migrations s t origin home restored writer

theorem restored_of_saved {migrations : List Migration} {s t : Nat} {origin : Home}
    {w : SchemaWorld} (writer : String) (hUndo : Undoable migrations s t origin)
    (hTree : IsTree w.home) (hClean : Clean s w.home) (hSaved : Saved migrations s origin w) :
    Restored migrations s t origin w.home writer := by
  obtain ⟨restored, hRestored, hStamped, hOthers, hFiles⟩ :=
    restoreSchema_spec writer hTree hClean
  refine ⟨restored, hRestored, hStamped, ?_, ?_⟩
  · intro step file hStep hDeclares hLedger hThere
    have hFile : Tracked migrations s origin file :=
      ⟨hThere, hUndo.first step file hStep hDeclares hLedger hThere⟩
    obtain ⟨dir, hDir, hBelow⟩ := hDeclares
    have hOwn := (hUndo.own step hStep dir hDir).below hBelow
    have hSnapped := hSaved.snapped file hFile
    have hSome : (w.home.get (backupPath s ++ file)).isSome := by
      rw [hSnapped]
      exact hThere
    rw [hFiles file hOwn.ne_schemaPath (mem_snapshotFiles.mpr ⟨hSome, hLedger⟩)]
    exact hSnapped
  · intro file hLedger
    refine hOthers file ?_ fun hMem => (mem_snapshotFiles.mp hMem).2 hLedger
    rintro rfl
    exact absurd hLedger (by decide)

/-- A restore undoes every completed migration in which the first step's snapshot covers
what the later steps declare, no process died inside the first step's rewrite, and no step
turned a file of the snapshot into a directory or back. -/
theorem restored_of_careful {root : String} {migrations : List Migration} {s t : Nat}
    {origin : Home} {actions : List SchemaAction} {w : SchemaWorld} (writer : String)
    (hSchema : schemaOf origin = s) (hSpan : s < t) (hUndo : Undoable migrations s t origin)
    (hRun : Machine.run (schemaStep root t migrations) ⟨origin, none, false⟩ actions = some w)
    (hCareful : Machine.Meets (schemaStep root t migrations) (fun u a => a.Careful s u)
      ⟨origin, none, false⟩ actions)
    (hCompleted : w.completed = true) : Restored migrations s t origin w.home writer := by
  have hInitial : Restorable migrations s t origin ⟨origin, none, false⟩ :=
    ⟨hUndo.tree, hUndo.clean, nofun, .inl ⟨hSchema, fun _ _ => rfl, rfl, nofun⟩⟩
  have hFinal : Restorable migrations s t origin w :=
    Machine.invariant_run_meets (fun _ _ _ h hCond hStep => restorable_step hUndo hSpan h hCond hStep)
      hInitial hRun hCareful
  -- Before its snapshot a run has not completed.
  rcases hFinal.progress with hFresh | hSaved
  · have hRunning := hFresh.running
    rw [hCompleted] at hRunning
    cases hRunning
  · exact restored_of_saved writer hUndo hFinal.tree hFinal.clean hSaved

/-! ## Runs -/

/-- A migration that rewrites one file. -/
def rewriteOf (file : HomePath) (value : String) : Migration where
  files := [file]
  migrate _ := [.write file (.text value)]
  declared _ edit hEdit := by
    rw [List.mem_singleton.mp hEdit]
    exact ⟨file, List.mem_singleton_self _, List.prefix_refl _⟩

/-- A home at schema 1 with two files. -/
def twoFiles : Home := .ofList [(["a.json"], .text "a1"), (["b.json"], .text "b1")]

/-- A `migrateSchema` that takes `n` steps. -/
def migrates (n : Nat) : List SchemaAction := .start "2" :: List.replicate n .proceed

theorem undoable_rewriteOf : Undoable [rewriteOf ["a.json"] "a2"] 1 2 twoFiles := by
  have hStep : ∀ step, InSpan [rewriteOf ["a.json"] "a2"] 1 2 step →
      step = rewriteOf ["a.json"] "a2" := by
    rintro step ⟨n, hFrom, hTo, hStep⟩
    obtain rfl : n = 1 := by omega
    exact (Option.some.inj hStep).symm
  have hKeys : ∀ file, (twoFiles.get file).isSome → file ∈ [["a.json"], ["b.json"]] :=
    fun file hSome => OrderedMap.get_isSome_iff.mp hSome
  refine ⟨?_, ?_, ?_, ?_⟩
  · have hThere : ∀ file, There twoFiles file → file ∈ [schemaPath, ["a.json"], ["b.json"]] :=
      fun file hFile => List.mem_cons.mpr (hFile.imp_right (hKeys file))
    have hBeside : ∀ file ∈ [schemaPath, ["a.json"], ["b.json"]],
        ∀ other ∈ [schemaPath, ["a.json"], ["b.json"]], Beside file other := by decide +kernel
    exact fun file other hFile hOther => hBeside file (hThere file hFile) other (hThere other hOther)
  · intro step hSpan dir hDir
    rw [hStep step hSpan] at hDir
    rw [List.mem_singleton.mp hDir]
    exact ⟨by decide, by decide, by decide⟩
  · intro file hSome
    have hMem := hKeys _ hSome
    simp [backupPath] at hMem
  · rintro step file hSpan ⟨dir, hDir, hBelow⟩ _ _
    rw [hStep step hSpan] at hDir
    refine ⟨_, dir, rfl, hDir, ?_, hBelow⟩
    rw [List.mem_singleton.mp hDir]
    decide

/-- One step is migrated and undone. -/
theorem restored_of_careful_rewriteOf :
    ∃ w, Machine.run (schemaStep "/home" 2 [rewriteOf ["a.json"] "a2"]) ⟨twoFiles, none, false⟩
        (migrates 8) = some w ∧ w.home.get ["a.json"] = some (.text "a2") ∧
      Restored [rewriteOf ["a.json"] "a2"] 1 2 twoFiles w.home "1" := by
  have hSome : (Machine.run (schemaStep "/home" 2 [rewriteOf ["a.json"] "a2"])
      ⟨twoFiles, none, false⟩ (migrates 8)).map (fun w => (w.completed, w.home.get ["a.json"])) =
        some (true, some (.text "a2")) := by decide +kernel
  obtain ⟨w, hRun, hEnd⟩ := Option.map_eq_some_iff.mp hSome
  refine ⟨w, hRun, (Prod.mk.inj hEnd).2, ?_⟩
  exact restored_of_careful "1" (by decide) (by decide) undoable_rewriteOf hRun (by decide +kernel)
    (Prod.mk.inj hEnd).1

/-- A declared file that a restore leaves changed. -/
theorem not_restored_of_run {migrations : List Migration} {t : Nat} {actions : List SchemaAction}
    {step : Migration} {file : HomePath} (value : HomeFile)
    (hEnd : (Machine.run (schemaStep "/home" t migrations) ⟨twoFiles, none, false⟩ actions).map
      (fun w => (w.completed, (restoreSchema w.home 1 "1").bind (OrderedMap.get · file))) =
        some (true, some value))
    (hStep : InSpan migrations 1 t step) (hDeclares : step.Declares file) (hLedger : file ∉ LEDGERS)
    (hThere : (twoFiles.get file).isSome) (hChanged : twoFiles.get file ≠ some value) :
    ∃ w, Machine.run (schemaStep "/home" t migrations) ⟨twoFiles, none, false⟩ actions = some w ∧
      w.completed = true ∧ ¬ Restored migrations 1 t twoFiles w.home "1" := by
  obtain ⟨w, hRun, hPair⟩ := Option.map_eq_some_iff.mp hEnd
  obtain ⟨hCompleted, hGet⟩ := Prod.mk.inj hPair
  refine ⟨w, hRun, hCompleted, ?_⟩
  rintro ⟨restored, hRestored, hUndone⟩
  rw [hRestored, Option.bind_some, hUndone.undone step file hStep hDeclares hLedger hThere] at hGet
  exact hChanged hGet

/-- The second step declares a file that the first does not, so the snapshot of schema 1
lacks it; and a step that died after its rewrite is run again over what it rewrote. -/
theorem not_restored_twoSteps :
    (∃ w, Machine.run (schemaStep "/home" 3 [rewriteOf ["a.json"] "a2", rewriteOf ["b.json"] "b2"])
        ⟨twoFiles, none, false⟩ (migrates 15) = some w ∧ w.completed = true ∧
      ¬ Restored [rewriteOf ["a.json"] "a2", rewriteOf ["b.json"] "b2"] 1 3 twoFiles w.home "1") ∧
    ∃ w, Machine.run (schemaStep "/home" 2 [rewriteOf ["a.json"] "a2"]) ⟨twoFiles, none, false⟩
        (migrates 6 ++ [.die none] ++ migrates 8) = some w ∧ w.completed = true ∧
      ¬ Restored [rewriteOf ["a.json"] "a2"] 1 2 twoFiles w.home "1" := by
  have hDeclares : ∀ file value, (rewriteOf file value).Declares file :=
    fun file _ => ⟨file, List.mem_singleton_self _, List.prefix_refl _⟩
  constructor
  · exact not_restored_of_run (.text "b2") (by decide +kernel) ⟨2, by decide, by decide, rfl⟩
      (hDeclares ["b.json"] "b2") (by decide) (by decide) (by decide)
  · exact not_restored_of_run (.text "a2") (by decide +kernel) ⟨1, by decide, by decide, rfl⟩
      (hDeclares ["a.json"] "a2") (by decide) (by decide) (by decide)

end Stim.Cli
