import Stim.Lib.Json
import Stim.Lib.JsNumber
import Stim.Lib.LinkTree
import Stim.Lib.PosixPath
import Stim.Lib.Utf8

/-!
# Hosted app bundles

The manifest of an app that a remote client sent, and the bundle that is made of it.  The blobs of the
app are only read.  What the file system is asked to do starts at the real path of the area of the
attempt, and a name is kept as it is.
-/

namespace Stim.HostedBundle

open FileTree (Path)
open LinkTree (Disk Entry Step Way downs)
open PosixPath (IsName slash here parent isAbsolute)

abbrev Bytes := List UInt8

/-- A name in a directory. -/
abbrev Name := { segment : JsString // IsName segment }

abbrev BundleDisk := Disk Name JsString Bytes

/-! ## What the code is given -/

/-- `path.normalize('NFC').toLowerCase()`: a slash composes with nothing, has no case, and comes from
nothing else. -/
structure Folding where
  fold : JsString → JsString
  fold_slash : ∀ front back, fold (front ++ slash :: back) = fold front ++ slash :: fold back
  slash_not_mem : ∀ segment, slash ∉ segment → slash ∉ fold segment
  fold_ne_nil : ∀ segment, segment ≠ [] → fold segment ≠ []
  fold_ne_here : ∀ segment, segment ≠ here → fold segment ≠ here

structure Platform where
  folding : Folding
  /-- `a.localeCompare(b) <= 0` -/
  ordered : JsString → JsString → Bool
  /-- The SHA-256 digest in hexadecimal. -/
  sha256 : Bytes → JsString
  /-- How many links the system follows one after another. -/
  limit : Nat
  /-- How many links `realpathSync` follows before it is taken not to return. -/
  rounds : Nat

/-! ## The manifest -/

/-- `listed` is an array around one of the other kinds, which only `String(kind)` takes for it. -/
inductive Kind where
  | file
  | exec
  | link
  | listed
  deriving DecidableEq

structure HostedAppFile where
  path : JsString
  kind : Kind
  size : Nat
  sha256 : JsString
  deriving DecidableEq

/-- The text that `String(value)` writes for a text, and for an array of one element around it.
Nothing else is written like a kind. -/
def textOf : Json → Option JsString
  | .string s => some s
  | .array [value] => textOf value
  | _ => none

def kindOf : JsString → Option Kind := fun s =>
  if s = JsString.ofString "file" then some .file
  else if s = JsString.ofString "exec" then some .exec
  else if s = JsString.ofString "link" then some .link
  else none

def readKind (value : Json) : Option Kind :=
  match value with
  | .string s => kindOf s
  | value => ((textOf value).bind kindOf).map fun _ => .listed

def MAX_SAFE_INTEGER : Int := 2 ^ 53 - 1

/-- A safe integer that is not below zero. -/
def readSize : Json → Option Nat
  | .number token =>
      match JsNumber.integer (JsNumber.toNumber token) with
      | some z => if 0 ≤ z ∧ z ≤ MAX_SAFE_INTEGER then some z.toNat else none
      | none => none
  | _ => none

/-- `/^[0-9a-f]{64}$/` -/
def isDigest (s : JsString) : Bool :=
  s.length == 64 && s.all fun u =>
    (0x30 ≤ u.toNat && u.toNat ≤ 0x39) || (0x61 ≤ u.toNat && u.toNat ≤ 0x66)

/-- A backslash, NUL, CR or LF. -/
def isForbidden (u : UInt16) : Bool := u == 0x5C || u == 0 || u == 0x0D || u == 0x0A

def isPath (path : JsString) : Bool :=
  !path.isEmpty && path.length ≤ 1024 && !path.any isForbidden &&
    (path.splitOn slash).all fun part => !part.isEmpty && part != here && part != parent

/-- The files, the folded paths and the sizes that were read, and the sum of the sizes. -/
structure Reading where
  files : List HostedAppFile
  paths : List JsString
  sizes : List (JsString × Nat)
  total : Nat
  deriving DecidableEq

def sizeLimit (kind : Kind) : Nat := if kind = .link then 1024 else 1024 ^ 3

/-- An entry of the manifest whose members are of their types. -/
def fileOf : Json → Option HostedAppFile
  | .object members =>
      match Json.lookup members (JsString.ofString "path"),
          (Json.lookup members (JsString.ofString "kind")).bind readKind,
          (Json.lookup members (JsString.ofString "size")).bind readSize,
          Json.lookup members (JsString.ofString "sha256") with
      | some (.string path), some kind, some size, some (.string sha256) =>
          some ⟨path, kind, size, sha256⟩
      | _, _, _, _ => none
  | _ => none

/-- One entry of the manifest, behind the ones that were read. -/
def readFile (folding : Folding) (reading : Reading) (value : Json) : Option Reading :=
  match fileOf value with
  | none => none
  | some file =>
      if isPath file.path ∧ ¬ reading.paths.contains (folding.fold file.path) ∧
          file.size ≤ sizeLimit file.kind ∧ isDigest file.sha256 ∧
          (∀ known ∈ reading.sizes.lookup file.sha256, known = file.size) ∧
          reading.total + file.size ≤ 4 * 1024 ^ 3 then
        some {
          files := reading.files ++ [file]
          paths := reading.paths ++ [folding.fold file.path]
          sizes := (file.sha256, file.size) :: reading.sizes
          total := reading.total + file.size }
      else none

/-- A path and the directories that `dirname` finds above it, until it answers `.`. -/
def ancestors : Nat → JsString → List JsString
  | 0, _ => []
  | count + 1, path =>
      if path = here then [] else path :: ancestors count (PosixPath.dirname path)

/-- No path is an ancestor of another one. -/
def noAncestors (paths : List JsString) : Bool :=
  paths.all fun path =>
    (ancestors path.length (PosixPath.dirname path)).all fun ancestor => !paths.contains ancestor

/-- An iOS or a macOS bundle, or a single Android package. -/
def isApp (files : List HostedAppFile) : Bool :=
  files.any (fun file => file.path == JsString.ofString "Info.plist" && file.kind == .file) ||
    (files.any (fun file =>
        file.path == JsString.ofString "Contents/Info.plist" && file.kind == .file) &&
      files.any fun file =>
        (JsString.ofString "Contents/MacOS/").isPrefixOf file.path && file.kind == .exec) ||
    (files.length == 1 &&
      files.any fun file => file.path == JsString.ofString "App.apk" && file.kind == .file)

def parseHostedAppManifest (platform : Platform) (value : Json) : Option (List HostedAppFile) :=
  match value with
  | .array values =>
      if values = [] ∨ 20000 < values.length then none
      else
        match values.foldlM (readFile platform.folding) ⟨[], [], [], 0⟩ with
        | none => none
        | some reading =>
            if noAncestors reading.paths && isApp reading.files then
              some (reading.files.mergeSort fun a b => platform.ordered a.path b.path)
            else none
  | _ => none

/-! ## The record of an attempt -/

/-- A regular file among the blobs. -/
structure Blob where
  content : Bytes
  mode : Nat

inductive AttemptState where
  | receiving
  | installing
  | installed
  | unknown
  deriving DecidableEq

/-- What the receipt of an attempt says. -/
structure HostedAppMetadata where
  state : AttemptState
  manifestSha256 : JsString
  manifestSize : Nat

/-- What is thrown; `system` is an error of the file system or of the JSON reader, or stands for a
`realpathSync` that does not return. -/
inductive Problem where
  | system
  | manifestDiffers
  | manifestMalformed
  | notAdmitted
  | incomplete (path : JsString)
  | escapes (path : JsString)
  | outside (path : JsString)
  | aliases
  deriving DecidableEq

def Problem.message : Problem → Option JsString
  | .system => none
  | .manifestDiffers => some (JsString.ofString "The hosted app manifest differs from its digest.")
  | .manifestMalformed =>
      some (JsString.ofString "The hosted app manifest is missing or malformed.")
  | .notAdmitted =>
      some (JsString.ofString "This app attempt has not been admitted for installation.")
  | .incomplete path =>
      some (JsString.ofString "App content is incomplete or differs from its digest: " ++ path)
  | .escapes path =>
      some (JsString.ofString "The app link escapes its bundle or forms an ancestor cycle: " ++ path)
  | .outside path =>
      some (JsString.ofString "The app entry resolves outside its bundle: " ++ path)
  | .aliases => some (JsString.ofString "App entries alias different content.")

def asText (bytes : Bytes) : JsString := (Utf8.decode bytes).flatMap JsString.encode

section

variable (platform : Platform) (blobs : JsString → Option Blob)

def Blob.fits (blob : Blob) (sha256 : JsString) (size : Nat) : Bool :=
  blob.content.length == size && platform.sha256 blob.content == sha256

def readHostedApp (metadata : HostedAppMetadata) : Except Problem (List HostedAppFile) :=
  match blobs metadata.manifestSha256 with
  | none => if metadata.state = .receiving then .ok [] else .error .manifestMalformed
  | some blob =>
      if ¬ blob.fits platform metadata.manifestSha256 metadata.manifestSize then
        .error .manifestDiffers
      else
        match Json.parse (asText blob.content) with
        | none => .error .system
        | some value =>
            match parseHostedAppManifest platform value with
            | none => .error .manifestMalformed
            | some files => .ok files

/-! ## Making the bundle -/

/-- What a part of a way says. -/
def stepOf (segment : JsString) : Step Name :=
  if h : IsName segment then .down ⟨segment, h⟩
  else if segment = parent then .up
  else .stay

def readWay (text : JsString) : Way Name where
  absolute := isAbsolute text
  steps := (text.splitOn slash).map stepOf

/-- The names on a path below the bundle. -/
def names (path : JsString) : List Name :=
  (path.splitOn slash).filterMap fun segment =>
    if h : IsName segment then some ⟨segment, h⟩ else none

def HostedAppFile.names (file : HostedAppFile) : List Name := HostedBundle.names file.path

def pathText (path : Path Name) : JsString := PosixPath.text (path.map Subtype.val)

def inside (root path : JsString) : Bool :=
  let diff := PosixPath.relative root path
  diff != [] && diff != parent && !(parent ++ [slash]).isPrefixOf diff && !isAbsolute diff

abbrev Outcome (α : Type) := Except Problem α × BundleDisk

/-- A loop that ends where its body throws. -/
def each {α : Type} (body : BundleDisk → α → Outcome Unit) :
    List α → BundleDisk → Outcome Unit
  | [], disk => (.ok (), disk)
  | a :: rest, disk =>
      match body disk a with
      | (.ok (), disk) => each body rest disk
      | (.error problem, disk) => (.error problem, disk)

def modeOf (kind : Kind) : Nat := if kind = .exec then 0o755 else 0o644

/-- `mkdirSync(dirname(target), { recursive: true })` -/
def makeParents (root : Path Name) (disk : BundleDisk) (file : HostedAppFile) :
    Bool × BundleDisk :=
  let made := LinkTree.mkdirs readWay platform.limit disk root file.names.dropLast
  (made.1.isSome, made.2)

/-- The first loop, which checks the blob of every entry and copies the files. -/
def copyFile (root : Path Name) (disk : BundleDisk) (file : HostedAppFile) : Outcome Unit :=
  match blobs file.sha256 with
  | none => (.error .system, disk)
  | some blob =>
      if ¬ blob.fits platform file.sha256 file.size then (.error (.incomplete file.path), disk)
      else if file.kind = .link then (.ok (), disk)
      else
        match makeParents platform root disk file with
        | (false, disk) => (.error .system, disk)
        | (true, disk) =>
            match LinkTree.writeFile readWay platform.limit disk root (downs file.names)
                blob.content blob.mode with
            | (false, disk) => (.error .system, disk)
            | (true, disk) =>
                match LinkTree.chmod readWay platform.limit disk root (downs file.names)
                    (modeOf file.kind) with
                | (false, disk) => (.error .system, disk)
                | (true, disk) => (.ok (), disk)

/-- Whether a link is refused for its text. -/
def isRefused (path : JsString) (bytes : Bytes) : Bool :=
  let target := asText bytes
  let destination := PosixPath.normalize (PosixPath.join (PosixPath.dirname path) target)
  target.isEmpty || Utf8.encode (Utf8.decode bytes) != bytes || target.any isForbidden ||
    isAbsolute target || destination == here || destination == parent ||
    (parent ++ [slash]).isPrefixOf destination || (destination ++ [slash]).isPrefixOf path

/-- The second loop. -/
def placeLink (root : Path Name) (disk : BundleDisk) (file : HostedAppFile) : Outcome Unit :=
  match blobs file.sha256 with
  | none => (.error .system, disk)
  | some blob =>
      if isRefused file.path blob.content then (.error (.escapes file.path), disk)
      else
        match makeParents platform root disk file with
        | (false, disk) => (.error .system, disk)
        | (true, disk) =>
            match file.names.getLast? with
            | none => (.error .system, disk)
            | some name =>
                match LinkTree.symlink readWay platform.limit disk root
                    (downs file.names.dropLast) name (asText blob.content) with
                | (false, disk) => (.error .system, disk)
                | (true, disk) => (.ok (), disk)

/-- `fs.realpathSync`, which asks the system whether a link leads somewhere and resolves its text
without it. -/
def realpathSync (disk : BundleDisk) (path : Path Name) : Option (Path Name) :=
  LinkTree.replaceLinks readWay platform.limit disk platform.rounds path

/-- The last loop. -/
def checkEntry (app root : Path Name) (disk : BundleDisk) (file : HostedAppFile) : Outcome Unit :=
  match realpathSync platform disk (app ++ file.names) with
  | none => (.error .system, disk)
  | some path =>
      if ¬ inside (pathText root) (pathText path) then (.error (.outside file.path), disk)
      else if file.kind = .link then (.ok (), disk)
      else
        match FileTree.get disk.tree path with
        | some (.file (.file content _)) =>
            if platform.sha256 content = file.sha256 then (.ok (), disk)
            else (.error .aliases, disk)
        | _ => (.error .system, disk)

def APP : Name := ⟨JsString.ofString "App.app", by decide⟩

def isLink (file : HostedAppFile) : Bool := file.kind == .link

/-- The loops, on an empty `App.app`. -/
def fillBundle (area : Path Name) (files : List HostedAppFile) (disk : BundleDisk) :
    Outcome (List HostedAppFile) :=
  let app := area ++ [APP]
  match each (copyFile platform blobs app) files disk with
  | (.error problem, disk) => (.error problem, disk)
  | (.ok (), disk) =>
      match each (placeLink platform blobs app) (files.filter isLink) disk with
      | (.error problem, disk) => (.error problem, disk)
      | (.ok (), disk) =>
          match realpathSync platform disk app with
          | none => (.error .system, disk)
          | some root =>
              match each (checkEntry platform app root) files disk with
              | (.error problem, disk) => (.error problem, disk)
              | (.ok (), disk) => (.ok files, disk)

def materializeHostedApp (area : Path Name) (metadata : HostedAppMetadata) (disk : BundleDisk) :
    Outcome (List HostedAppFile) :=
  match readHostedApp platform blobs metadata with
  | .error problem => (.error problem, disk)
  | .ok files =>
      if metadata.state ≠ .installing then (.error .notAdmitted, disk)
      else
        match blobs metadata.manifestSha256 with
        | none => (.error .system, disk)
        | some blob =>
            if ¬ blob.fits platform metadata.manifestSha256 metadata.manifestSize then
              (.error .manifestDiffers, disk)
            else
              match LinkTree.mkdir (disk.remove (area ++ [APP])) (area ++ [APP]) with
              | (false, disk) => (.error .system, disk)
              | (true, disk) => fillBundle platform blobs area files disk

end

end Stim.HostedBundle
