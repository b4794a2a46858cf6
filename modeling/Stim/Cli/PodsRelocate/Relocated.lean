import Stim.Cli.PodsRelocate.Rules

/-!
# What relocated Pods should be

`Relocated` says what Pods whose `Manifest.lock` matches `Podfile.lock` should be: nothing names
the source checkout, and each generated text file and each link is as it was cloned with the path
replaced once.

A run that ends early may leave a part of the tree rewritten under a `Manifest.lock` that differs,
and the next run rewrites the tree again.  A path that was rewritten to a checkout below the source
checkout is then rewritten twice.  `Sound` is the condition on a run and on the tree that it
starts from under which this, what the search for the path misses, and the loss of bytes that are
no character, does not happen.
-/

namespace Stim.PodsRelocate

open CutSection CutSection.Section

/-! ## What is claimed -/

section Statement

variable (host : Host) (roots : Roots)

/-- What is taken for a text: bytes without a NUL. -/
def isText (content : Bytes) : Bool := !content.contains 0

/-- Below one of the generated directories. -/
def isGenerated (path : Path) : Bool :=
  GENERATED_DIRS.any fun name => [name].isPrefixOf path && path ≠ [name]

/-- The entry names the source checkout other than as part of the target: a text as `pathPattern`
reads it, and other content by its bytes. -/
def namesSource : Entry → Bool
  | .directory => false
  | .file content =>
      bytesNameSource host roots content ||
        (isText content && textNamesSource host roots (Utf8.decode content))
  | .link target => textNamesSource host roots target

def namesTarget : Entry → Bool
  | .directory => false
  | .file content =>
      (pathPattern host (latin1 (Utf8.encode roots.target))).test (latin1 content) ||
        (isText content && (pathPattern host roots.target).test (Utf8.decode content))
  | .link target => (pathPattern host roots.target).test target

/-- A tree that names the target nowhere.  `Manifest.lock` and the generated directories are not
links. -/
structure Cloned (original : Pods) : Prop where
  rooted : [] ∉ original.keys
  tree : ∀ path ∈ original.keys, ∀ ancestor, ancestor ≠ [] → ancestor <+: path →
    ancestor ≠ path → original.get ancestor = some .directory
  plain : ∀ path ∈ manifestPath :: GENERATED_DIRS.map ([·]), ∀ target,
    original.get path ≠ some (.link target)
  target : ∀ path entry, original.get path = some entry → namesTarget host roots entry = false

/-- `Manifest.lock` is `Podfile.lock` up to line endings and trailing space. -/
def locksMatch (podfileLock : Option Bytes) (pods : Pods) : Bool :=
  match podfileLock, pods.get manifestPath with
  | some lock, some (.file manifest) =>
      normalize (Utf8.decode lock) = normalize (Utf8.decode manifest)
  | _, _ => false

/-- The content's text has the path replaced once, and a file that is written had only characters
to begin with. -/
structure ReplacedOnce (content now : Bytes) : Prop where
  text : Utf8.decode now = relocatePath host (Utf8.decode content) roots.source roots.target
  bytes : now = content ∨ Utf8.encode (Utf8.decode content) = content ∧
    now = Utf8.encode (relocatePath host (Utf8.decode content) roots.source roots.target)

structure Relocated (original pods : Pods) : Prop where
  named : ∀ path entry, pods.get path = some entry → namesSource host roots entry = false
  files : ∀ path content, isGenerated path = true → original.get path = some (.file content) →
    isText content = true → ∃ now, pods.get path = some (.file now) ∧
      ReplacedOnce host roots content now
  links : ∀ path target, original.get path = some (.link target) →
    pods.get path = some (.link (relocatePath host target roots.source roots.target))

/-! ## The condition -/

/-- What `relocateFile` leaves of a file. -/
def once (content : Bytes) : Bytes :=
  if !includes content (Utf8.encode roots.source) || content.contains 0 ||
      !(pathPattern host roots.source).test (Utf8.decode content) then content
  else Utf8.encode (relocatePath host (Utf8.decode content) roots.source roots.target)

/-- The checks of a run let it go on to rewriting. -/
def rewrites (going : Going) (podfileLock : Option Bytes) (pods : Pods) : Bool :=
  going.canRelocate && match podfileLock, pods.get manifestPath with
  | some lock, some (.file manifest) =>
      if normalize (Utf8.decode lock) = normalize (Utf8.decode manifest) then
        pods.entries.any fun e => found host roots e.2
      else
        match planPodsRelocation host (Utf8.decode lock) (Utf8.decode manifest) roots.source
            (readPodspec going pods) with
        | .ok _ => true
        | .no _ => false
  | _, _ => false

/-- Each generated file and each link is as it was cloned, or another rewriting leaves it as it
is. -/
def Fresh (original pods : Pods) : Prop :=
  ∀ path entry, pods.get path = some entry →
    match entry with
    | .directory => True
    | .file content => isGenerated path = true →
        once host roots content = content ∨ original.get path = some (.file content)
    | .link target => original.get path ≠ none →
        relocatePath host target roots.source roots.target = target ∨
          original.get path = some (.link target)

/-- A text that names the source checkout does so by its bytes. -/
def Visible (content : Bytes) : Prop :=
  isText content = true → textNamesSource host roots (Utf8.decode content) = true →
    bytesNameSource host roots content = true

/-- A text that names the source checkout has only characters. -/
def Legible (content : Bytes) : Prop :=
  isText content = true → (pathPattern host roots.source).test (Utf8.decode content) = true →
    Utf8.encode (Utf8.decode content) = content

/-- What a run has to start from. -/
structure Sound (original : Pods) (podfileLock : Option Bytes) (a : After) (run : Run) : Prop where
  fresh : rewrites host roots run.toGoing podfileLock a.pods = true →
    Fresh host roots original a.pods
  /-- A `Podfile.lock` that names the source checkout differs from a `Manifest.lock` that is seen
  to name it too. -/
  lock : rewrites host roots run.toGoing podfileLock a.pods = true →
    ∀ lock ∈ podfileLock, namesSource host roots (.file (Utf8.encode (Utf8.decode lock))) = true →
      locksMatch podfileLock a.pods = false ∧
        ∃ manifest, a.pods.get manifestPath = some (.file manifest) ∧
          bytesNameSource host roots manifest = true
  legible : rewrites host roots run.toGoing podfileLock a.pods = true →
    ∀ path content, isGenerated path = true → original.get path = some (.file content) →
      Legible host roots content
  visible : rewrites host roots run.toGoing podfileLock a.pods = true →
    ∀ path content, a.pods.get path = some (.file content) →
      Visible host roots (if isGenerated path then once host roots content else content)
  unseen : locksMatch podfileLock a.pods = true →
    (∀ path entry, a.pods.get path = some entry → found host roots entry = false) →
    ∀ path content, a.pods.get path = some (.file content) → Visible host roots content

end Statement

end Stim.PodsRelocate
