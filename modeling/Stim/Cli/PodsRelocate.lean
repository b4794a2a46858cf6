import Stim.Lib.CutSection
import Stim.Lib.Delimited
import Stim.Lib.Machine
import Stim.Lib.OrderedMap
import Stim.Lib.Utf8
import Stim.Lib.Whitespace

/-!
# Relocating a carried Pods directory

A Pods directory that was cloned from another checkout names that checkout's path.  `relocatePods`
rewrites the path in generated text files and in symbolic links, and then gives `Manifest.lock`
the text of `Podfile.lock`, by which CocoaPods takes the directory as installed.

A run performs file operations one after another.  Each may fail, and the process may die between
two of them.  Directories are listed in any order.

Paths are below the Pods directory.  What Unicode calls a letter or a number, and SHA-1, are
parameters.  Files have one name each, so hard links are left out, and so are a `Manifest.lock` and
generated directories that are themselves links.
-/

namespace Stim.PodsRelocate

open CutSection CutSection.Section

abbrev Bytes := List UInt8

abbrev Text := List Char

/-- The names that lead to an entry. -/
abbrev Path := List Text

structure Host where
  /-- `\p{L}` or `\p{N}` -/
  letterOrNumber : Char → Bool
  sha1 : Text → Text

inductive Entry where
  | directory
  | file (content : Bytes)
  | link (target : Text)
  deriving DecidableEq, Repr

/-- What lies under the Pods directory. -/
abbrev Pods := OrderedMap Path Entry

inductive PodRelocation where
  | ok (pods : List Text)
  | no (withheld : Bool)
  deriving DecidableEq, Repr

inductive Thrown where
  /-- An error of a file operation. -/
  | io
  | stillNames (leftover : Path) (sourceRoot : Text)
  deriving DecidableEq, Repr

def SPEC_CHECKSUMS : Text := "SPEC CHECKSUMS:\n".toList

def GENERATED_DIRS : List Text :=
  ["Target Support Files".toList, "Pods.xcodeproj".toList, "Local Podspecs".toList]

def manifestPath : Path := ["Manifest.lock".toList]

/-! ## Lock files -/

/-- `replace(/\r\n/g, '\n')` -/
def lineFeeds : Text → Text
  | '\r' :: '\n' :: rest => '\n' :: lineFeeds rest
  | c :: rest => c :: lineFeeds rest
  | [] => []

def normalize (text : Text) : Text :=
  ((lineFeeds text).reverse.dropWhile Whitespace.isSpace).reverse ++ ['\n']

/-- The text up to the end of the first `needle`, and the text behind it. -/
def cutBehind (needle : Text) : Text → Option (Text × Text)
  | [] => none
  | c :: rest =>
      if needle.isPrefixOf (c :: rest) then some (needle, (c :: rest).drop needle.length)
      else (cutBehind needle rest).map fun cut => (c :: cut.1, cut.2)

def skipQuote : Text → Text
  | '"' :: rest => rest
  | text => text

def isHex (c : Char) : Bool := '0' ≤ c && c ≤ '9' || 'a' ≤ c && c ≤ 'f'

/-- `/^ {2}"?([^":\s]+)"?: ([0-9a-f]{40})$/` -/
def checksumLine (line : Text) : Option (Text × Text) :=
  let isName (c : Char) : Bool := c != '"' && c != ':' && !Whitespace.isSpace c
  match line with
  | ' ' :: ' ' :: rest =>
      let name := (skipQuote rest).takeWhile isName
      match skipQuote ((skipQuote rest).dropWhile isName) with
      | ':' :: ' ' :: hex =>
          if name ≠ [] ∧ hex.length = 40 ∧ hex.all isHex then some (name, hex) else none
      | _ => none
  | _ => none

/-- The entries of the first lines, and the lines behind them. -/
def checksumLines : List Text → List (Text × Text) × List Text
  | [] => ([], [])
  | line :: lines =>
      match checksumLine line with
      | none => ([], line :: lines)
      | some entry => (entry :: (checksumLines lines).1, (checksumLines lines).2)

structure Checksums where
  before : Text
  entries : OrderedMap Text Text
  behind : Text

def splitChecksums (text : Text) : Option Checksums :=
  (cutBehind ('\n' :: SPEC_CHECKSUMS) text).map fun cut =>
    let lines := checksumLines (cut.2.splitOn '\n')
    ⟨cut.1, OrderedMap.ofList lines.1, List.intercalate ['\n'] lines.2⟩

/-- `/^[\w.+-]+$/` -/
def isPodName (pod : Text) : Bool :=
  pod ≠ [] && pod.all fun c => c.isAlphanum || c = '_' || c = '.' || c = '+' || c = '-'

/-! ## Paths in texts -/

section Naming

variable (host : Host)

/-- `[\p{L}\p{N}_.-]` -/
def isPathChar (c : Char) : Bool := host.letterOrNumber c || c = '_' || c = '.' || c = '-'

/-- `(?:(?<![\p{L}\p{N}_.-])|(?<=-[IFL]))` -/
def mayPrecede : Text → Bool
  | [] => true
  | [c] => !isPathChar host c
  | c :: b :: _ => !isPathChar host c || (b = '-' && (c = 'I' || c = 'F' || c = 'L'))

/-- `(?![\p{L}\p{N}_.-])` -/
def mayFollow : Text → Bool
  | [] => true
  | c :: _ => !isPathChar host c

def pathPattern (root : Text) : Delimited Char := ⟨root, mayPrecede host, mayFollow host⟩

def relocatePath (text source target : Text) : Text := (pathPattern host source).replaceAll target text

/-- `Buffer.toString('latin1')` -/
def latin1 (bytes : Bytes) : Text := bytes.map fun byte => Char.ofNat byte.toNat

/-- `buffer.includes(bytes)` -/
def includes (buffer bytes : Bytes) : Bool := decide (bytes <:+: buffer)

/-- The checkouts' paths, which are absolute. -/
structure Roots where
  source : Text
  target : Text
  absolute : source.head? = some '/' ∧ target.head? = some '/'

variable (roots : Roots)

/-- `sourceNamer`, by the way that it encodes the paths. -/
def sourceNamer (encode : Text → Text) (text : Text) : Bool :=
  let nested := (roots.source ++ ['/']).isPrefixOf roots.target
  (pathPattern host (encode roots.source)).test
    (if nested then (pathPattern host (encode roots.target)).replaceAll [] text else text)

def textNamesSource (text : Text) : Bool := sourceNamer host roots id text

def bytesNameSource (buffer : Bytes) : Bool :=
  includes buffer (Utf8.encode roots.source) &&
    sourceNamer host roots (fun text => latin1 (Utf8.encode text)) (latin1 buffer)

/-! ## The plan for differing locks -/

def planEntries (carried : OrderedMap Text Text) (sourceRoot : Text)
    (readPodspec : Text → Option Text) : List (Text × Text) → List Text → PodRelocation
  | [], pods => if pods ≠ [] then .ok pods else .no false
  | (pod, checksum) :: entries, pods =>
      match carried.get pod with
      | none => .no false
      | some carriedChecksum =>
          if carriedChecksum = checksum then planEntries carried sourceRoot readPodspec entries pods
          else if !isPodName pod then .no false
          else
            match readPodspec pod with
            | none => .no false
            | some podspec =>
                if host.sha1 podspec ≠ carriedChecksum then .no false
                else if !(pathPattern host sourceRoot).test podspec then .no false
                else planEntries carried sourceRoot readPodspec entries (pods ++ [pod])

def planPodsRelocation (podfileLock manifest sourceRoot : Text)
    (readPodspec : Text → Option Text) : PodRelocation :=
  match splitChecksums (normalize podfileLock), splitChecksums (normalize manifest) with
  | some lock, some carried =>
      if lock.before ≠ carried.before ∨ lock.behind ≠ carried.behind then .no false
      else if lock.entries.entries.length ≠ carried.entries.entries.length then .no false
      else planEntries host carried.entries sourceRoot readPodspec lock.entries.entries []
  | _, _ => .no false

end Naming

/-! ## File operations -/

structure Store where
  pods : Pods
  /-- A run has changed the tree. -/
  touched : Bool
  /-- Whether the operations to come fail.  Those behind the list do not. -/
  failing : List Bool

abbrev Operation := Section Store Thrown

/-- A file operation, as far as it may fail. -/
def attempt : Operation Unit := fun s =>
  match s.failing with
  | [] => (.ok (), [])
  | fails :: failing => (if fails then .error .io else .ok (), [{ s with failing := failing }])

def change (f : Pods → Pods) : Operation Unit := do
  attempt
  operate fun s => { s with pods := f s.pods, touched := true }

def entryAt (path : Path) : Operation (Option Entry) := do
  let s ← read
  pure (s.pods.get path)

def readFileSync (path : Path) : Operation Bytes := do
  attempt
  match ← entryAt path with
  | some (.file content) => pure content
  | _ => fail .io

def readlinkSync (path : Path) : Operation Text := do
  attempt
  match ← entryAt path with
  | some (.link target) => pure target
  | _ => fail .io

def writeFileSync (path : Path) (content : Bytes) : Operation Unit :=
  change fun pods => pods.set path (.file content)

def unlinkSync (path : Path) : Operation Unit := change fun pods => pods.delete path

def symlinkSync (target : Text) (path : Path) : Operation Unit := do
  match ← entryAt path with
  | none => change fun pods => pods.set path (.link target)
  | some _ => fail .io

/-- The link at `next`, which takes the place of what is at `link`. -/
def renameSync (next link : Path) : Operation Unit :=
  change fun pods => match pods.get next with
    | none => pods
    | some entry => (pods.delete next).set link entry

/-- The order in which a run lists entries. -/
structure Listing where
  order : List (Path × Entry) → List (Path × Entry)
  perm : ∀ entries, (order entries).Perm entries

/-- The entries that a walk comes to, all directories together. -/
def Listing.below (listing : Listing) (dir : Path) (pods : Pods) : List (Path × Entry) :=
  listing.order (pods.entries.filter fun e => dir.isPrefixOf e.1 && e.1 ≠ dir)

def walk (visit : Path → Entry → Operation Unit) : List (Path × Entry) → Operation Unit
  | [] => pure ()
  | e :: entries => do
      visit e.1 e.2
      walk visit entries

/-- `readdirSync(dir)`, then the entries, of which a directory is listed in its turn. -/
def walkFrom (listing : Listing) (dir : Path) (visit : Path → Entry → Operation Unit) :
    Operation Unit := do
  attempt
  let s ← read
  walk visit (listing.below dir s.pods)

def walkTextFiles (listing : Listing) (dir : Path) (visit : Path → Operation Unit) :
    Operation Unit :=
  walkFrom listing dir fun path entry => match entry with
    | .directory => attempt
    | .file _ => visit path
    | .link _ => pure ()

def walkSymlinks (listing : Listing) (dir : Path) (visit : Path → Operation Unit) :
    Operation Unit :=
  walkFrom listing dir fun path entry => match entry with
    | .directory => attempt
    | .file _ => pure ()
    | .link _ => visit path

def findEntry (text : Text → Bool) (bytes : Bytes → Bool) :
    List (Path × Entry) → Operation (Option Path)
  | [] => pure none
  | (path, entry) :: entries => do
      attempt
      let found := match entry with
        | .directory => false
        | .file content => bytes content
        | .link target => text target
      if found then pure (some path) else findEntry text bytes entries

def findPath (listing : Listing) (dir : Path) (text : Text → Bool) (bytes : Bytes → Bool) :
    Operation (Option Path) := do
  attempt
  let s ← read
  findEntry text bytes (listing.below dir s.pods)

/-! ## One run -/

/-- `${link}.stim-relocate` -/
def beside : Path → Path
  | [] => []
  | [name] => [name ++ ".stim-relocate".toList]
  | dir :: path => dir :: beside path

section Run

variable (host : Host) (roots : Roots)

def relocateFile (file : Path) : Operation Unit := do
  let buffer ← readFileSync file
  if !includes buffer (Utf8.encode roots.source) || buffer.contains 0 then pure ()
  else
    let text := Utf8.decode buffer
    if !(pathPattern host roots.source).test text then pure ()
    else writeFileSync file (Utf8.encode (relocatePath host text roots.source roots.target))

def relocateLink (link : Path) : Operation Unit := do
  let target ← readlinkSync link
  if !(pathPattern host roots.source).test target then pure ()
  else
    symlinkSync (relocatePath host target roots.source roots.target) (beside link)
    onError (renameSync (beside link) link) fun error => do
      unlinkSync (beside link)
      fail error

def relocateGenerated (listing : Listing) : List Text → Operation Unit
  | [] => pure ()
  | name :: names => do
      match ← entryAt [name] with
      | none => pure ()
      | some .directory => walkTextFiles listing [name] (relocateFile host roots)
      | some _ => fail .io
      relocateGenerated listing names

/-- The rewriting of `relocatePods`, from the generated files on. -/
def rewrite (listing : Listing) (podfileLock : Text) (pods : List Text) :
    Operation PodRelocation := do
  relocateGenerated host roots listing GENERATED_DIRS
  walkSymlinks listing [] (relocateLink host roots)
  match ← findPath listing [] (textNamesSource host roots) (bytesNameSource host roots) with
  | some leftover => fail (.stillNames leftover roots.source)
  | none =>
      writeFileSync manifestPath (Utf8.encode podfileLock)
      pure (.ok pods)

/-- How one run goes: `canRelocate`, the order of its listings, the podspecs that it fails to read
and its other operations that fail. -/
structure Going where
  canRelocate : Bool
  listing : Listing
  unreadable : Text → Bool
  failing : List Bool

def podspecPath (pod : Text) : Path :=
  ["Local Podspecs".toList, pod ++ ".podspec.json".toList]

def readPodspec (going : Going) (pods : Pods) (pod : Text) : Option Text :=
  if going.unreadable pod then none
  else
    match pods.get (podspecPath pod) with
    | some (.file content) => some (Utf8.decode content)
    | _ => none

def relocatePods (going : Going) (podfileLock : Option Bytes) : Operation PodRelocation := do
  match ← entryAt manifestPath, podfileLock with
  | some _, some lockBytes =>
      attempt
      let podfileLock := Utf8.decode lockBytes
      let manifest := Utf8.decode (← readFileSync manifestPath)
      if normalize podfileLock = normalize manifest then
        let names ← onError
          (findPath going.listing [] (textNamesSource host roots) (bytesNameSource host roots))
          fun error => do
            unlinkSync manifestPath
            fail error
        match names with
        | none => pure (.no false)
        | some _ =>
            unlinkSync manifestPath
            if !going.canRelocate then pure (.no true)
            else rewrite host roots going.listing podfileLock []
      else if !going.canRelocate then pure (.no false)
      else
        let s ← read
        match planPodsRelocation host podfileLock manifest roots.source
            (readPodspec going s.pods) with
        | .no withheld => pure (.no withheld)
        | .ok pods => rewrite host roots going.listing podfileLock pods
  | _, _ => pure (.no false)

end Run

/-! ## Runs one after another -/

/-- A run that goes to its end, or dies after some operations. -/
structure Run extends Going where
  dies : Option Nat

/-- The tree after some runs, and how the last of them ended. -/
structure After where
  pods : Pods
  returned : Bool
  /-- The last run has changed the tree. -/
  touched : Bool

def After.step (host : Host) (roots : Roots) (podfileLock : Option Bytes) (a : After) (run : Run) :
    Option After :=
  let section_ := relocatePods host roots run.toGoing podfileLock
  let start : Store := ⟨a.pods, false, run.failing⟩
  match run.dies with
  | some operations =>
      some ⟨(section_.cut start operations).pods, false, (section_.cut start operations).touched⟩
  | none =>
      let returned := match section_.answer start with
        | .ok _ => true
        | .error _ => false
      some ⟨(section_.after start).pods, returned, (section_.after start).touched⟩

end Stim.PodsRelocate
