import Stim.Lib.Machine
import Stim.Lib.OrderedMap

/-!
# The schema of a Stim home

`packages/stim-cli/src/engine-store/schema.ts`.  A home is the files below its root, with
the directories that they need; `migrateSchema` takes it from schema to schema, copying
what a step declares into `backup/schema-<n>` first, and `restoreSchema` copies one such
directory back.  A write throws where a directory stands in its place, or a file in the
place of a directory above it.  A process that migrates may die at any step and is run
again.
-/

namespace Stim.Cli

abbrev HomePath := List String

/-- A file's content: the marker of a schema, or anything else. -/
inductive HomeFile where
  | marker (schema : Nat) (writer : String)
  | text (value : String)
  deriving DecidableEq

abbrev Home := OrderedMap HomePath HomeFile

/-- Ledgers of live external resources. -/
def LEDGERS : List HomePath :=
  [["created-devices.json"], ["eas", "sessions.json"], ["homes", "homes.json"]]

def schemaPath : HomePath := ["schema.json"]

def backupPath (schema : Nat) : HomePath := ["backup", "schema-" ++ schema.repr]

/-- One change of a migration. -/
inductive Edit where
  | write (path : HomePath) (content : HomeFile)
  | remove (path : HomePath)

def Edit.path : Edit → HomePath
  | .write path _ => path
  | .remove path => path

/-- A directory stands at the path, or a file above it. -/
def blocked (home : Home) (path : HomePath) : Bool :=
  home.keys.any fun file =>
    decide (file ≠ path) && (file.isPrefixOf path || path.isPrefixOf file)

/-- Writes a file with the directories above it, or throws. -/
def put (home : Home) (path : HomePath) (content : HomeFile) : Option Home :=
  if blocked home path then none else some (home.set path content)

def Edit.apply (home : Home) : Edit → Option Home
  | .write path content => put home path content
  | .remove path => some (home.delete path)

/-- A step from schema `n` to `n + 1`: the files it rewrites, relative to the root, and the
rewrite, which touches no others. -/
structure Migration where
  files : List HomePath
  migrate : Home → List Edit
  declared : ∀ home, ∀ edit ∈ migrate home, ∃ file ∈ files, file <+: edit.path

/-- Index `n - 1` migrates schema `n` to `n + 1`. -/
def migrationFrom (migrations : List Migration) : Nat → Option Migration
  | 0 => none
  | n + 1 => migrations[n]?

def readSchema (home : Home) : Option (Nat × String) :=
  match home.get schemaPath with
  | some (.marker schema writer) => some (schema, writer)
  | _ => none

/-- `readSchema(root)?.schema ?? 1`. -/
def schemaOf (home : Home) : Nat := ((readSchema home).map Prod.fst).getD 1

def schemaRefusal (root : String) (home : Home) (schema : Nat) : Option String :=
  match readSchema home with
  | none => none
  | some (found, writer) =>
      if found ≤ schema then none
      else some ("home " ++ root ++ " was migrated to schema " ++ found.repr ++ " by " ++ writer ++
        "; run stim engine rollback --restore-state (restores " ++ root ++ "/backup/schema-" ++
        schema.repr ++ ") or stim engine update")

/-- `cpSync` of one file. -/
def copyFile (home : Home) (src dst : HomePath) : Option Home :=
  match home.get src with
  | none => some home
  | some content => put home dst content

/-- `existsSync`: a file, or a directory with files. -/
def existsAt (home : Home) (path : HomePath) : Bool := home.keys.any fun file => path.isPrefixOf file

def filesBelow (home : Home) (path : HomePath) : List HomePath :=
  home.keys.filter fun file => path.isPrefixOf file

/-! ## `migrateSchema` -/

/-- Where a run of `migrateSchema` stands. -/
inductive MigrateStage where
  /-- The head of the loop. -/
  | loop (schema : Nat)
  /-- These declared files are still to be copied. -/
  | snapshot (schema : Nat) (step : Migration) (files : List HomePath)
  /-- So are these, of the declared directory whose turn it is. -/
  | copying (schema : Nat) (step : Migration) (todo files : List HomePath)
  /-- `migrate` has these changes left; `begun` once it has made one. -/
  | rewriting (schema : Nat) (begun : Bool) (todo : List Edit)

structure MigrateCall where
  writer : String
  stage : MigrateStage

structure SchemaWorld where
  home : Home
  call : Option MigrateCall
  /-- The last `migrateSchema` has returned. -/
  completed : Bool

inductive SchemaAction where
  /-- `migrateSchema` is run by a build. -/
  | start (writer : String)
  | proceed
  /-- The process dies, and may leave the file it was writing with some other content. -/
  | die (torn : Option HomeFile)

section

variable (root : String) (target : Nat) (migrations : List Migration)

/-- The call goes on from what a write left, or ends where the write has thrown. -/
def SchemaWorld.goOn (w : SchemaWorld) (home : Option Home) (call : MigrateCall) : SchemaWorld :=
  match home with
  | none => { w with call := none }
  | some home => { w with home := home, call := some call }

/-- The next step of a `migrateSchema` to `target`. -/
def SchemaWorld.proceed (w : SchemaWorld) (call : MigrateCall) : SchemaWorld :=
  match call.stage with
  | .loop schema =>
      if schema < target then
        match migrationFrom migrations schema with
        | none => { w with call := none }
        | some step =>
            let files := step.files.filter fun file =>
              decide (file ∉ LEDGERS) && existsAt w.home file
            { w with call := some { call with stage := .snapshot schema step files } }
      else
        match put w.home schemaPath (.marker target call.writer) with
        | none => { w with call := none }
        | some home => ⟨home, none, true⟩
  | .snapshot schema step (file :: files) =>
      { w with call := some { call with
          stage := .copying schema step (filesBelow w.home file) files } }
  | .snapshot schema step [] =>
      { w with call := some { call with stage := .rewriting schema false (step.migrate w.home) } }
  | .copying schema step (file :: todo) files =>
      w.goOn (copyFile w.home file (backupPath schema ++ file))
        { call with stage := .copying schema step todo files }
  | .copying schema step [] files =>
      { w with call := some { call with stage := .snapshot schema step files } }
  | .rewriting schema _ (edit :: todo) =>
      w.goOn (edit.apply w.home) { call with stage := .rewriting schema true todo }
  | .rewriting schema _ [] =>
      w.goOn (put w.home schemaPath (.marker (schema + 1) call.writer))
        { call with stage := .loop (schema + 1) }

/-- The file a stage is writing.  The marker is renamed into place. -/
def MigrateStage.writing : MigrateStage → Option HomePath
  | .copying schema _ (file :: _) _ => some (backupPath schema ++ file)
  | .rewriting _ _ (edit :: _) => some edit.path
  | _ => none

def tear (home : Home) (path : Option HomePath) (torn : Option HomeFile) : Home :=
  match path, torn with
  | some path, some content => (put home path content).getD home
  | _, _ => home

def schemaStep (w : SchemaWorld) : SchemaAction → Option SchemaWorld
  | .start writer =>
      if w.call.isSome then none
      else match schemaRefusal root w.home target with
        | some _ => some w
        | none => some ⟨w.home, some ⟨writer, .loop (schemaOf w.home)⟩, false⟩
  | .proceed => w.call.map fun call => w.proceed target migrations call
  | .die torn => w.call.map fun call =>
      { w with home := tear w.home call.stage.writing torn, call := none }

end

/-! ## `restoreSchema` -/

/-- The files of a snapshot, ledgers excepted. -/
def snapshotFiles (home : Home) (schema : Nat) : List HomePath :=
  ((filesBelow home (backupPath schema)).map fun file => file.drop 2).filter fun file =>
    decide (file ∉ LEDGERS)

/-- `cpSync` of these files of a snapshot. -/
def putBack (schema : Nat) (home : Home) (files : List HomePath) : Option Home :=
  files.foldlM (fun home file => copyFile home (backupPath schema ++ file) file) home

/-- Puts back the snapshot taken before the home left `schema`, and stamps it. -/
def restoreSchema (home : Home) (schema : Nat) (writer : String) : Option Home :=
  (putBack schema home (snapshotFiles home schema)).bind fun home =>
    put home schemaPath (.marker schema writer)

end Stim.Cli
