import Stim.Lib.FileTree

/-!
# A file system with links

A tree whose leaves are files with a mode and links with a text, which is read as a way through the
tree.  Every operation but `remove` goes through the links it meets, as the system calls do, at most
`limit` of them one after another; the disk keeps a log of what the operations touched.
-/

namespace LinkTree

open FileTree (Path Node Tree get put get_put parentError)

/-- A file, or a link, which is a leaf too. -/
inductive Entry (Text Bytes : Type) where
  | file (content : Bytes) (mode : Nat)
  | link (text : Text)
  deriving DecidableEq

inductive Step (Name : Type) where
  | stay
  | up
  | down (name : Name)
  deriving DecidableEq

/-- What the text of a link says: a way from the top, or from the directory of the link. -/
structure Way (Name : Type) where
  absolute : Bool
  steps : List (Step Name)

/-- The tree, and the paths that were created, written or removed, in their order. -/
structure Disk (Name Text Bytes : Type) where
  tree : Tree Name (Entry Text Bytes)
  touched : List (Path Name)

variable {Name Text Bytes : Type} [DecidableEq Name]

/-- The way down through names. -/
def downs (names : List Name) : List (Step Name) := names.map Step.down

section

variable (readWay : Text → Way Name)

/-- The path that a way leads to.  The last step of a way may lead to nothing where it is to be
created. -/
def walkWith (tree : Tree Name (Entry Text Bytes)) (create : Bool)
    (follow : Path Name → List (Step Name) → Option (Path Name)) :
    Path Name → List (Step Name) → Option (Path Name)
  | dir, [] => some dir
  | dir, .stay :: rest => walkWith tree create follow dir rest
  | dir, .up :: rest => walkWith tree create follow dir.dropLast rest
  | dir, .down name :: rest =>
      match get tree (dir ++ [name]) with
      | none => if create && rest.isEmpty then some (dir ++ [name]) else none
      | some .dir => walkWith tree create follow (dir ++ [name]) rest
      | some (.file (.file _ _)) => if rest.isEmpty then some (dir ++ [name]) else none
      | some (.file (.link text)) =>
          follow (if (readWay text).absolute then [] else dir) ((readWay text).steps ++ rest)

/-- `walkWith` through at most so many links. -/
def walk (tree : Tree Name (Entry Text Bytes)) (create : Bool) :
    Nat → Path Name → List (Step Name) → Option (Path Name)
  | 0 => walkWith readWay tree create fun _ _ => none
  | limit + 1 => walkWith readWay tree create (walk tree create limit)

/-- The real path of what a way leads to. -/
def realpath (limit : Nat) (disk : Disk Name Text Bytes) (dir : Path Name)
    (steps : List (Step Name)) : Option (Path Name) :=
  walk readWay disk.tree false limit dir steps

/-- Where a way leads by its names alone. -/
def land : Path Name → List (Step Name) → Path Name
  | dir, [] => dir
  | dir, .stay :: rest => land dir rest
  | dir, .up :: rest => land dir.dropLast rest
  | dir, .down name :: rest => land (dir ++ [name]) rest

/-- What is met on the way down a path: nothing at some place, no link, or a first link. -/
inductive Met (Name Text : Type) where
  | missing
  | clear
  | link (dir : Path Name) (name : Name) (text : Text) (rest : List Name)

def meet (tree : Tree Name (Entry Text Bytes)) : Path Name → List Name → Met Name Text
  | _, [] => .clear
  | dir, name :: rest =>
      match get tree (dir ++ [name]) with
      | none => .missing
      | some .dir => meet tree (dir ++ [name]) rest
      | some (.file (.file _ _)) => if rest.isEmpty then .clear else .missing
      | some (.file (.link text)) => .link dir name text rest

/-- The path without links that is left when each link, if it leads somewhere, gives way to its text,
in so many rounds.  A step up in a text takes off the name before it, also where that is a link. -/
def replaceLinks (limit : Nat) (disk : Disk Name Text Bytes) : Nat → Path Name → Option (Path Name)
  | 0, _ => none
  | rounds + 1, path =>
      match meet disk.tree [] path with
      | .missing => none
      | .clear => some path
      | .link dir name text rest =>
          match walk readWay disk.tree false limit dir [.down name] with
          | none => none
          | some _ =>
              let start := if (readWay text).absolute then [] else dir
              replaceLinks limit disk rounds (land start (readWay text).steps ++ rest)

/-! ## Operations -/

def Disk.set (disk : Disk Name Text Bytes) (path : Path Name)
    (node : Node (Entry Text Bytes)) : Disk Name Text Bytes :=
  { tree := put disk.tree path node, touched := disk.touched ++ [path] }

/-- Removes a path with all that is below it, and goes through no link. -/
def Disk.remove (disk : Disk Name Text Bytes) (path : Path Name) : Disk Name Text Bytes :=
  { tree := disk.tree.filter fun e => ¬ path <+: e.1, touched := disk.touched ++ [path] }

/-- Creates one directory, in a directory that is there. -/
def mkdir (disk : Disk Name Text Bytes) (path : Path Name) : Bool × Disk Name Text Bytes :=
  match parentError disk.tree path, get disk.tree path with
  | none, none => (true, disk.set path .dir)
  | _, _ => (false, disk)

/-- Creates the directories on a path that are not there, and answers where the path leads. -/
def mkdirs (limit : Nat) : Disk Name Text Bytes → Path Name → List Name →
    Option (Path Name) × Disk Name Text Bytes
  | disk, dir, [] => (some dir, disk)
  | disk, dir, name :: rest =>
      match get disk.tree (dir ++ [name]) with
      | none => mkdirs limit (disk.set (dir ++ [name]) .dir) (dir ++ [name]) rest
      | some .dir => mkdirs limit disk (dir ++ [name]) rest
      | some (.file (.file _ _)) => (none, disk)
      | some (.file (.link _)) =>
          match walk readWay disk.tree false limit dir [.down name] with
          | none => (none, disk)
          | some path =>
              match get disk.tree path with
              | some .dir => mkdirs limit disk path rest
              | _ => (none, disk)

/-- Writes the content of a file, which is created with a mode if it is not there. -/
def writeFile (limit : Nat) (disk : Disk Name Text Bytes) (dir : Path Name)
    (steps : List (Step Name)) (content : Bytes) (mode : Nat) : Bool × Disk Name Text Bytes :=
  match walk readWay disk.tree true limit dir steps with
  | none => (false, disk)
  | some path =>
      match get disk.tree path with
      | none => (true, disk.set path (.file (.file content mode)))
      | some (.file (.file _ old)) => (true, disk.set path (.file (.file content old)))
      | _ => (false, disk)

def chmod (limit : Nat) (disk : Disk Name Text Bytes) (dir : Path Name)
    (steps : List (Step Name)) (mode : Nat) : Bool × Disk Name Text Bytes :=
  match walk readWay disk.tree false limit dir steps with
  | none => (false, disk)
  | some path =>
      match get disk.tree path with
      | some (.file (.file content _)) => (true, disk.set path (.file (.file content mode)))
      | _ => (false, disk)

/-- Creates a link, whose last name is not followed. -/
def symlink (limit : Nat) (disk : Disk Name Text Bytes) (dir : Path Name)
    (parents : List (Step Name)) (name : Name) (text : Text) : Bool × Disk Name Text Bytes :=
  match walk readWay disk.tree false limit dir parents with
  | none => (false, disk)
  | some path =>
      match get disk.tree (path ++ [name]) with
      | none => (true, disk.set (path ++ [name]) (.file (.link text)))
      | some _ => (false, disk)

end

/-! ## Walks -/

section

variable {readWay : Text → Way Name} {tree : Tree Name (Entry Text Bytes)} {create : Bool}
  {limit : Nat}

theorem walk_nil (dir : Path Name) : walk readWay tree create limit dir [] = some dir := by
  cases limit with
  | zero => rfl
  | succ limit => rfl

variable {dir : Path Name}

theorem walk_dir {name : Name} (h : get tree (dir ++ [name]) = some .dir)
    (rest : List (Step Name)) :
    walk readWay tree create limit dir (.down name :: rest) =
      walk readWay tree create limit (dir ++ [name]) rest := by
  cases limit with
  | zero => rw [walk, walkWith, h]
  | succ limit => rw [walk, walkWith, h]

theorem walk_file {name : Name} {content : Bytes} {mode : Nat}
    (h : get tree (dir ++ [name]) = some (.file (.file content mode))) :
    walk readWay tree create limit dir [.down name] = some (dir ++ [name]) := by
  cases limit with
  | zero => rw [walk, walkWith, h]; rfl
  | succ limit => rw [walk, walkWith, h]; rfl

theorem walk_create {name : Name} (h : get tree (dir ++ [name]) = none) :
    walk readWay tree true limit dir [.down name] = some (dir ++ [name]) := by
  cases limit with
  | zero => rw [walk, walkWith, h]; rfl
  | succ limit => rw [walk, walkWith, h]; rfl

/-- Directories that are there are walked through. -/
theorem walk_downs {names : List Name}
    (h : ∀ front, front <+: names → front ≠ [] → get tree (dir ++ front) = some .dir)
    (rest : List (Step Name)) :
    walk readWay tree create limit dir (downs names ++ rest) =
      walk readWay tree create limit (dir ++ names) rest := by
  induction names generalizing dir with
  | nil => rw [downs, List.map_nil, List.nil_append, List.append_nil]
  | cons name names ih =>
      have hfirst : get tree (dir ++ [name]) = some .dir :=
        h [name] (List.prefix_append [name] names) (List.cons_ne_nil _ _)
      have hrest : ∀ front, front <+: names → front ≠ [] →
          get tree (dir ++ [name] ++ front) = some .dir := by
        intro front hfront _
        rw [List.append_assoc]
        exact h (name :: front) (List.cons_prefix_cons.mpr ⟨rfl, hfront⟩) (List.cons_ne_nil _ _)
      rw [downs, List.map_cons, List.cons_append, walk_dir hfirst]
      rw [← downs, ih hrest, List.append_assoc]
      rfl

/-! ## Links that give way to their texts -/

/-- Behind a name stand only names. -/
def Straight : List (Step Name) → Prop
  | [] => True
  | .down _ :: rest => ∃ names, rest = downs names
  | .stay :: rest | .up :: rest => Straight rest

/-- A path down to which only directories lie. -/
def Real (tree : Tree Name (Entry Text Bytes)) (dir : Path Name) : Prop :=
  ∀ front, front <+: dir → front ≠ [] → get tree front = some .dir

omit [DecidableEq Name] in
theorem land_downs (dir : Path Name) (names : List Name) :
    land dir (downs names) = dir ++ names := by
  induction names generalizing dir with
  | nil => exact (List.append_nil dir).symm
  | cons name names ih =>
      have hrest := ih (dir ++ [name])
      rw [List.append_assoc] at hrest
      exact hrest

theorem walk_real {dir : Path Name} (hreal : Real tree dir) (names : List Name) :
    walk readWay tree create limit [] (downs (dir ++ names)) =
      walk readWay tree create limit dir (downs names) := by
  have hdown : walk readWay tree create limit [] (downs dir ++ downs names) =
      walk readWay tree create limit ([] ++ dir) (downs names) :=
    walk_downs (fun front hfront hne => hreal front hfront hne) (downs names)
  rwa [downs, downs, ← List.map_append] at hdown

/-- A straight way leads where its names say. -/
theorem walk_land {dir : Path Name} {steps : List (Step Name)} (hreal : Real tree dir)
    (h : Straight steps) (names : List Name) :
    walk readWay tree create limit dir (steps ++ downs names) =
      walk readWay tree create limit [] (downs (land dir steps ++ names)) := by
  induction steps generalizing dir with
  | nil => exact (walk_real hreal names).symm
  | cons step steps ih =>
      cases step with
      | stay =>
          have hrest := ih hreal h
          cases limit <;> exact hrest
      | up =>
          -- No link lies behind, so the step up takes off a name.
          have hrest := ih (fun front hfront => hreal front (hfront.trans (List.dropLast_prefix dir))) h
          cases limit <;> exact hrest
      | down name =>
          obtain ⟨more, rfl⟩ := h
          have hland : land dir (.down name :: downs more) = dir ++ (name :: more) :=
            land_downs dir (name :: more)
          rw [hland, List.append_assoc, walk_real hreal]
          simp only [downs, List.map_append, List.map_cons]

variable (readWay) in
/-- What is met on the way down. -/
theorem meet_spec (tree : Tree Name (Entry Text Bytes)) (dir : Path Name) (names : List Name) :
    match meet tree dir names with
    | .missing => True
    | .clear => ∀ limit, walk readWay tree false limit dir (downs names) = some (dir ++ names)
    | .link last name text rest => ∃ front, names = front ++ name :: rest ∧ last = dir ++ front ∧
        (∀ way, way <+: front → way ≠ [] → get tree (dir ++ way) = some .dir) ∧
        get tree (last ++ [name]) = some (.file (.link text)) := by
  induction names generalizing dir with
  | nil =>
      intro limit
      rw [List.append_nil]
      exact walk_nil dir
  | cons name names ih =>
      rw [meet]
      cases hget : get tree (dir ++ [name]) with
      | none => trivial
      | some node =>
          cases node with
          | dir =>
              have hnext := ih (dir ++ [name])
              simp only
              cases hmeet : meet tree (dir ++ [name]) names with
              | missing => trivial
              | clear =>
                  rw [hmeet] at hnext
                  intro limit
                  have hwalk := hnext limit
                  rw [List.append_assoc] at hwalk
                  rw [downs, List.map_cons, walk_dir hget]
                  exact hwalk
              | link last next text rest =>
                  rw [hmeet] at hnext
                  obtain ⟨front, hnames, hlast, hdirs, hlink⟩ := hnext
                  refine ⟨name :: front, by rw [hnames]; rfl, by rw [hlast]; simp, ?_, hlink⟩
                  intro way hway hne
                  cases way with
                  | nil => exact absurd rfl hne
                  | cons first way =>
                      obtain ⟨rfl, hrest⟩ := List.cons_prefix_cons.mp hway
                      by_cases hnil : way = []
                      · rw [hnil, hget]
                      · have hdir := hdirs way hrest hnil
                        rwa [List.append_assoc] at hdir
          | file entry =>
              cases entry with
              | file content mode =>
                  cases names with
                  | nil => exact fun limit => walk_file hget
                  | cons next names => trivial
              | link text => exact ⟨[], rfl, (List.append_nil dir).symm, by simp, hget⟩

/-- Where the texts of all links are straight, what is left is where the system is led. -/
theorem replaceLinks_eq {disk : Disk Name Text Bytes} {rounds most : Nat} {path found real : Path Name}
    (hstraight : ∀ q text, get disk.tree q = some (.file (.link text)) →
      Straight (readWay text).steps)
    (h : replaceLinks readWay limit disk rounds path = some found)
    (hwalk : walk readWay disk.tree false most [] (downs path) = some real) : found = real := by
  induction rounds generalizing path most with
  | zero => cases h
  | succ rounds ih =>
      have hmet := meet_spec readWay disk.tree [] path
      rw [replaceLinks] at h
      cases hmeet : meet disk.tree [] path with
      | missing =>
          rw [hmeet] at h
          cases h
      | clear =>
          rw [hmeet] at h hmet
          rw [hmet most] at hwalk
          cases h
          exact Option.some.inj hwalk
      | link dir name text rest =>
          rw [hmeet] at h hmet
          obtain ⟨front, rfl, rfl, hdirs, hlink⟩ := hmet
          simp only at h
          split at h
          · cases h
          have hreal : Real disk.tree dir := hdirs
          rw [walk_real hreal] at hwalk
          -- the system follows the link, from a directory that is real too
          cases most with
          | zero =>
              rw [downs, List.map_cons, walk, walkWith, hlink] at hwalk
              cases hwalk
          | succ most =>
              rw [downs, List.map_cons, walk, walkWith, hlink] at hwalk
              refine @ih most _ h ?_
              rw [← walk_land ?_ (hstraight _ _ hlink)]
              · exact hwalk
              · split
                · exact fun way hway hne => absurd (List.prefix_nil.mp hway) hne
                · exact hreal

end

/-! ## What lies below a path -/

theorem get_remove (disk : Disk Name Text Bytes) (path q : Path Name) :
    get (disk.remove path).tree q = if path <+: q then none else get disk.tree q := by
  have hfilter : ∀ tree : Tree Name (Entry Text Bytes),
      get (tree.filter fun e => ¬ path <+: e.1) q = if path <+: q then none else get tree q := by
    intro tree
    induction tree with
    | nil => simp [FileTree.get]
    | cons e tree ih =>
        obtain ⟨p, node⟩ := e
        by_cases hp : path <+: p
        · rw [List.filter_cons_of_neg (by simpa using hp), ih, FileTree.get]
          by_cases hq : q = p
          · rw [hq, if_pos hp, if_pos hp]
          · rw [if_neg hq]
        · rw [List.filter_cons_of_pos (by simpa using hp), FileTree.get, FileTree.get, ih]
          by_cases hq : q = p
          · rw [hq, if_pos rfl, if_pos rfl, if_neg hp]
          · rw [if_neg hq, if_neg hq]
  exact hfilter disk.tree

theorem get_set (disk : Disk Name Text Bytes) (path q : Path Name)
    (node : Node (Entry Text Bytes)) :
    get (disk.set path node).tree q = if q = path then some node else get disk.tree q :=
  get_put disk.tree path q node

/-- Nothing but what lies at a path or below it was touched. -/
structure Confined (top : Path Name) (before after : Disk Name Text Bytes) : Prop where
  tree : ∀ q, ¬ top <+: q → get after.tree q = get before.tree q
  touched : ∃ paths, after.touched = before.touched ++ paths ∧ ∀ q ∈ paths, top <+: q

namespace Confined

variable {top : Path Name} {a b c : Disk Name Text Bytes}

theorem refl (top : Path Name) (disk : Disk Name Text Bytes) : Confined top disk disk where
  tree _ _ := rfl
  touched := ⟨[], (List.append_nil _).symm, fun _ h => absurd h List.not_mem_nil⟩

theorem trans (hab : Confined top a b) (hbc : Confined top b c) : Confined top a c where
  tree q hq := (hbc.tree q hq).trans (hab.tree q hq)
  touched := by
    obtain ⟨front, hfront, hin⟩ := hab.touched
    obtain ⟨back, hback, hin'⟩ := hbc.touched
    refine ⟨front ++ back, by rw [hback, hfront, List.append_assoc], fun q hq => ?_⟩
    rcases List.mem_append.mp hq with hq | hq
    · exact hin q hq
    · exact hin' q hq

theorem set (disk : Disk Name Text Bytes) {path : Path Name} (h : top <+: path)
    (node : Node (Entry Text Bytes)) : Confined top disk (disk.set path node) where
  tree q hq := by
    rw [get_set, if_neg]
    rintro rfl
    exact hq h
  touched := ⟨[path], rfl, fun q hq => by rwa [List.mem_singleton.mp hq]⟩

theorem remove (disk : Disk Name Text Bytes) (path : Path Name) :
    Confined path disk (disk.remove path) where
  tree q hq := by rw [get_remove, if_neg hq]
  touched := ⟨[path], rfl, fun q hq => by rw [List.mem_singleton.mp hq]⟩

end Confined

/-! ## Laying out a directory -/

/-- What lies at and below a path, by the way down from it. -/
abbrev Layout (Name Text Bytes : Type) := Path Name → Option (Node (Entry Text Bytes))

def Below (top : Path Name) (disk : Disk Name Text Bytes) (layout : Layout Name Text Bytes) :
    Prop := ∀ way, get disk.tree (top ++ way) = layout way

/-- An empty directory. -/
def bare : Layout Name Text Bytes := fun way => if way = [] then some .dir else none

/-- The directories down to a path are there. -/
def layDirs (layout : Layout Name Text Bytes) (path : Path Name) : Layout Name Text Bytes :=
  fun way => if way <+: path then some .dir else layout way

/-- An entry and the directories on its path are there. -/
def lay (layout : Layout Name Text Bytes) (path : Path Name) (entry : Entry Text Bytes) :
    Layout Name Text Bytes :=
  fun way => if way = path then some (.file entry) else layDirs layout path.dropLast way

/-- Nothing but directories lies on the way down to a path. -/
def Open (layout : Layout Name Text Bytes) (path : Path Name) : Prop :=
  layout [] = some .dir ∧ ∀ way, way <+: path → layout way = none ∨ layout way = some .dir

section

variable {readWay : Text → Way Name} {limit : Nat} {top : Path Name}
  {disk : Disk Name Text Bytes} {layout : Layout Name Text Bytes}

theorem below_set (h : Below top disk layout) (path : Path Name) (node : Node (Entry Text Bytes)) :
    Below top (disk.set (top ++ path) node) fun way =>
      if way = path then some node else layout way := by
  intro way
  rw [get_set, h way]
  simp only [List.append_cancel_left_eq]

theorem layDirs_of_dirs {path : Path Name} (h : ∀ way, way <+: path → layout way = some .dir) : layDirs layout path = layout := by
  funext way
  unfold layDirs
  split_ifs with hway
  · exact (h way hway).symm
  · rfl

/-- One more directory. -/
theorem layDirs_concat (layout : Layout Name Text Bytes) (path : Path Name) (name : Name) :
    (fun way => if way = path ++ [name] then some .dir else layDirs layout path way) =
      layDirs layout (path ++ [name]) := by
  funext way
  unfold layDirs
  simp only [List.prefix_concat_iff]
  by_cases hway : way = path ++ [name]
  · simp only [hway, true_or, if_true]
  · simp only [hway, false_or, if_false]

omit [DecidableEq Name] in
theorem not_concat_prefix (parents : List Name) (name : Name) : ¬ parents ++ [name] <+: parents := by
  intro hpre
  have hlength := hpre.length_le
  rw [List.length_append, List.length_singleton] at hlength
  omega

variable (readWay limit) in
/-- Where only directories lie, directories are made. -/
theorem mkdirs_below :
    ∀ {names : List Name} {disk : Disk Name Text Bytes} {path : Path Name},
      Below top disk (layDirs layout path) → Open layout (path ++ names) →
      ∃ disk', mkdirs readWay limit disk (top ++ path) names =
          (some (top ++ (path ++ names)), disk') ∧
        Below top disk' (layDirs layout (path ++ names)) ∧ Confined top disk disk' := by
  intro names
  induction names with
  | nil =>
      intro disk path hbelow _
      rw [List.append_nil]
      exact ⟨disk, rfl, hbelow, .refl top disk⟩
  | cons name names ih =>
      intro disk path hbelow hopen
      have hnext : path ++ name :: names = path ++ [name] ++ names := by
        rw [List.append_assoc]
        rfl
      rw [hnext] at hopen ⊢
      have hnot := not_concat_prefix path name
      have hget : get disk.tree (top ++ path ++ [name]) = layout (path ++ [name]) := by
        rw [List.append_assoc, hbelow (path ++ [name]), layDirs, if_neg hnot]
      rcases hopen.2 (path ++ [name]) (List.prefix_append _ _) with hnone | hdir
      · have hset := below_set hbelow (path ++ [name]) .dir
        rw [layDirs_concat, ← List.append_assoc] at hset
        obtain ⟨disk', hmkdirs, hbelow', hconfined⟩ := ih hset hopen
        refine ⟨disk', ?_, hbelow', .trans (.set disk ?_ .dir) hconfined⟩
        · rw [mkdirs, hget, hnone]
          simp only
          rw [List.append_assoc top path [name]] at hmkdirs ⊢
          exact hmkdirs
        · rw [List.append_assoc]
          exact List.prefix_append _ _
      · have hkept : layDirs layout (path ++ [name]) = layDirs layout path := by
          rw [← layDirs_concat]
          funext way
          split_ifs with hway
          · rw [hway, layDirs, if_neg hnot, hdir]
          · rfl
        rw [← hkept] at hbelow
        obtain ⟨disk', hmkdirs, hbelow', hconfined⟩ := ih hbelow hopen
        refine ⟨disk', ?_, hbelow', hconfined⟩
        rw [mkdirs, hget, hdir]
        simp only
        rw [List.append_assoc top path [name]]
        exact hmkdirs

/-- Directories below a path are walked through. -/
theorem walk_below (h : Below top disk layout) {create : Bool} {names : List Name}
    (hdirs : ∀ way, way <+: names → layout way = some .dir) (rest : List (Step Name)) :
    walk readWay disk.tree create limit top (downs names ++ rest) =
      walk readWay disk.tree create limit (top ++ names) rest := by
  apply walk_downs
  intro front hfront _
  rw [h front, hdirs front hfront]

omit [DecidableEq Name] in
theorem downs_concat (names : List Name) (name : Name) :
    downs (names ++ [name]) = downs names ++ [.down name] := by
  rw [downs, List.map_append]
  rfl

variable {parents : List Name} {name : Name}

variable (readWay limit) in
/-- A file that is not there is created. -/
theorem writeFile_below (h : Below top disk layout)
    (hdirs : ∀ way, way <+: parents → layout way = some .dir)
    (hnone : layout (parents ++ [name]) = none) (content : Bytes) (mode : Nat) :
    writeFile readWay limit disk top (downs (parents ++ [name])) content mode =
      (true, disk.set (top ++ (parents ++ [name])) (.file (.file content mode))) := by
  have hget : get disk.tree (top ++ parents ++ [name]) = none := by
    rw [List.append_assoc, h, hnone]
  rw [writeFile, downs_concat, walk_below h hdirs, walk_create hget]
  simp only [hget]
  rw [List.append_assoc]

variable (readWay limit) in
/-- A file that is there is given a mode. -/
theorem chmod_below (h : Below top disk layout)
    (hdirs : ∀ way, way <+: parents → layout way = some .dir) {content : Bytes} {old : Nat}
    (hfile : layout (parents ++ [name]) = some (.file (.file content old))) (mode : Nat) :
    chmod readWay limit disk top (downs (parents ++ [name])) mode =
      (true, disk.set (top ++ (parents ++ [name])) (.file (.file content mode))) := by
  have hget : get disk.tree (top ++ parents ++ [name]) = some (.file (.file content old)) := by
    rw [List.append_assoc, h, hfile]
  rw [chmod, downs_concat, walk_below h hdirs, walk_file hget]
  simp only [hget]
  rw [List.append_assoc]

variable (readWay limit) in
/-- A link that is not there is created. -/
theorem symlink_below (h : Below top disk layout)
    (hdirs : ∀ way, way <+: parents → layout way = some .dir)
    (hnone : layout (parents ++ [name]) = none) (text : Text) :
    symlink readWay limit disk top (downs parents) name text =
      (true, disk.set (top ++ (parents ++ [name])) (.file (.link text))) := by
  have hget : get disk.tree (top ++ parents ++ [name]) = none := by
    rw [List.append_assoc, h, hnone]
  rw [symlink, ← List.append_nil (downs parents), walk_below h hdirs, walk_nil]
  simp only [hget]
  rw [List.append_assoc]

theorem layDirs_dirs (path : Path Name) :
    ∀ way, way <+: path → layDirs layout path way = some .dir := by
  intro way hway
  rw [layDirs, if_pos hway]

theorem lay_eq (parents : List Name) (name : Name) (entry : Entry Text Bytes) :
    (fun way => if way = parents ++ [name] then some (.file entry)
      else layDirs layout parents way) = lay layout (parents ++ [name]) entry := by
  funext way
  rw [lay, List.dropLast_concat]

/-- A directory in which some entries were laid out. -/
def layAll (entries : List (Path Name × Entry Text Bytes)) : Layout Name Text Bytes :=
  entries.foldl (fun layout e => lay layout e.1 e.2) bare

theorem layAll_concat (entries : List (Path Name × Entry Text Bytes)) (path : Path Name)
    (entry : Entry Text Bytes) :
    layAll (entries ++ [(path, entry)]) = lay (layAll entries) path entry := by
  rw [layAll, List.foldl_append]
  rfl

/-- No path of a list leads to or through another one. -/
def Apart (paths : List (Path Name)) : Prop := paths.Pairwise fun a b => ¬ a <+: b ∧ ¬ b <+: a

omit [DecidableEq Name] in
theorem Apart.perm {paths more : List (Path Name)} (h : Apart more) (hperm : paths.Perm more) :
    Apart paths := (hperm.pairwise_iff fun hab => And.symm hab).mpr h

/-- Entries that lie apart are where they were laid, and the directories on their paths with them. -/
theorem layAll_eq {entries : List (Path Name × Entry Text Bytes)}
    (hapart : Apart (entries.map Prod.fst)) (way : Path Name) :
    (∀ entry, (way, entry) ∈ entries → layAll entries way = some (.file entry)) ∧
      ((∀ entry, (way, entry) ∉ entries) → layAll entries way =
        if way = [] ∨ ∃ e ∈ entries, way <+: e.1.dropLast then some .dir else none) := by
  induction entries using List.reverseRecOn with
  | nil =>
      constructor
      · exact fun entry h => absurd h List.not_mem_nil
      · intro _
        simp [layAll, bare]
  | append_singleton entries e ih =>
      obtain ⟨path, last⟩ := e
      rw [List.map_append, Apart, List.pairwise_append] at hapart
      obtain ⟨hfront, -, hlast⟩ := hapart
      obtain ⟨hentry, hrest⟩ := ih hfront
      rw [layAll_concat]
      constructor
      · intro entry hmem
        rcases List.mem_append.mp hmem with hold | hnew
        · have hpath := hlast way (List.mem_map_of_mem hold) path (List.mem_singleton_self _)
          have hne : way ≠ path := by
            rintro rfl
            exact hpath.1 (List.prefix_refl _)
          have hparent : ¬ way <+: path.dropLast :=
            fun hpre => hpath.1 (hpre.trans (List.dropLast_prefix path))
          rw [lay, if_neg hne, layDirs, if_neg hparent]
          exact hentry entry hold
        · cases List.mem_singleton.mp hnew
          rw [lay, if_pos rfl]
      · intro hnone
        have hne : way ≠ path := by
          rintro rfl
          exact hnone last (List.mem_append_right _ (List.mem_singleton_self _))
        have hold : ∀ entry, (way, entry) ∉ entries :=
          fun entry hmem => hnone entry (List.mem_append_left _ hmem)
        rw [lay, if_neg hne, layDirs, hrest hold]
        simp only [List.mem_append, List.mem_singleton, or_and_right, exists_or, exists_eq_left]
        by_cases hparent : way <+: path.dropLast
        · simp only [hparent, if_true, or_true]
        · simp only [hparent, if_false, or_false]

/-- The way to an entry that lies apart from the ones that were laid out is open, and ends at nothing. -/
theorem layAll_open {entries : List (Path Name × Entry Text Bytes)} {path : Path Name}
    (hapart : Apart (entries.map Prod.fst ++ [path])) :
    Open (layAll entries) path ∧ (path ≠ [] → layAll entries path = none) := by
  rw [Apart, List.pairwise_append] at hapart
  obtain ⟨hentries, -, hpath⟩ := hapart
  have hnone : ∀ way, way <+: path → ∀ entry, (way, entry) ∉ entries := fun way hway entry hmem =>
    (hpath way (List.mem_map_of_mem hmem) path (List.mem_singleton_self _)).1 hway
  refine ⟨⟨?_, ?_⟩, ?_⟩
  · rw [(layAll_eq hentries []).2 (hnone [] List.nil_prefix), if_pos (Or.inl rfl)]
  · intro way hway
    rw [(layAll_eq hentries way).2 (hnone way hway)]
    split_ifs
    · exact Or.inr rfl
    · exact Or.inl rfl
  · intro hne
    rw [(layAll_eq hentries path).2 (hnone path (List.prefix_refl _)), if_neg]
    rintro (hnil | ⟨e, he, hpre⟩)
    · exact hne hnil
    · exact (hpath e.1 (List.mem_map_of_mem he) path (List.mem_singleton_self _)).2
        (hpre.trans (List.dropLast_prefix _))

omit [DecidableEq Name] in
theorem Open.prefix {path way : Path Name} (h : Open layout path) (hway : way <+: path) : Open layout way :=
  ⟨h.1, fun front hfront => h.2 front (hfront.trans hway)⟩

/-- An entry that is laid again takes the place of the first. -/
theorem lay_again (layout : Layout Name Text Bytes) (path : Path Name)
    (old entry : Entry Text Bytes) :
    (fun way => if way = path then some (.file entry) else lay layout path old way) =
      lay layout path entry := by
  funext way
  unfold lay
  split_ifs
  · rfl
  · rfl

end

end LinkTree
