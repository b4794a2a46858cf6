import Stim.Lib.Json.Strings
import Stim.Lib.PosixPath

/-!
# Evaluation results of another checkout

`relocateValue` of `fingerprint/index-store.ts` writes the paths of a cached result relative to the
roots that they lie within, and `locateValue` reads them back under the roots of a checkout.  Paths
are those of Posix.
-/

namespace Stim.IndexStore

open PosixPath

/-- What `realpath` answers. -/
structure RealPath where
  names : List JsString
  valid : ∀ name ∈ names, IsName name

def RealPath.path (real : RealPath) : JsString := text real.names

structure Roots where
  project : RealPath
  install : RealPath
  top : Option RealPath

/-- `NORMAL` without `DOTS`: a path that `path.relative` leaves as it is. -/
def normal : JsString → Bool
  | [] => false
  | unit :: rest =>
      unit == slash && (rest.isEmpty || (rest.splitOn slash).all fun segment =>
        segment != [] && segment != here && segment != parent)

def within (path dir : JsString) : Bool :=
  if normal path && normal dir then
    path == dir || (if dir = [slash] then dir else dir ++ [slash]).isPrefixOf path
  else
    let rel := relative dir path
    rel == [] || (rel != parent && !(parent ++ [slash]).isPrefixOf rel && !isAbsolute rel)

def colon : UInt16 := 58

/-- The letter of a form: `p`, `i`, `t` or `a`. -/
abbrev projectLetter : UInt16 := 112

abbrev installLetter : UInt16 := 105

abbrev topLetter : UInt16 := 116

abbrev absoluteLetter : UInt16 := 97

def relocate (path : JsString) (roots : Roots) : JsString :=
  if within path roots.project.path then
    projectLetter :: colon :: relative roots.project.path path
  else if within path roots.install.path then
    installLetter :: colon :: relative roots.install.path path
  else
    match roots.top with
    | some top =>
        if within path top.path then topLetter :: colon :: relative top.path path
        else absoluteLetter :: colon :: path
    | none => absoluteLetter :: colon :: path

def placed (path : JsString) (roots : Roots) : Bool :=
  within path roots.project.path || within path roots.install.path ||
    roots.top.any fun top => within path top.path

/-- A NUL character -/
def PLACED : UInt16 := 0

def locate (form : JsString) (roots : Roots) : JsString :=
  let rest := form.drop 2
  if [projectLetter, colon].isPrefixOf form then join roots.project.path rest
  else if [installLetter, colon].isPrefixOf form then join roots.install.path rest
  else if [topLetter, colon].isPrefixOf form then
    match roots.top with
    | some top => join top.path rest
    | none => PLACED :: JsString.ofString "unplaced"
  else rest

def relocateString (roots : Roots) (s : JsString) : JsString :=
  if isAbsolute s && placed s roots then PLACED :: relocate s roots else s

def locateString (roots : Roots) (s : JsString) : JsString :=
  if s.head? = some PLACED then locate s.tail roots else s

def relocateValue (value : Json) (roots : Roots) : Json := value.mapStrings (relocateString roots)

def locateValue (value : Json) (roots : Roots) : Json := value.mapStrings (locateString roots)

/-! ## Lying within a root -/

theorem normal_eq_text {path : JsString} (h : normal path = true) : path = text (names path) := by
  cases path with
  | nil => cases h
  | cons unit rest =>
      rw [normal, Bool.and_eq_true, beq_iff_eq] at h
      obtain ⟨rfl, h⟩ := h
      by_cases hRest : rest = []
      · subst hRest
        decide
      have hNames : ∀ name ∈ rest.splitOn slash, IsName name := by
        intro name hName
        have hEmpty : rest.isEmpty = false := by simpa using hRest
        rw [hEmpty, Bool.false_or, List.all_eq_true] at h
        have hSegment := h name hName
        simp only [Bool.and_eq_true, bne_iff_ne] at hSegment
        exact ⟨hSegment.1.1, hSegment.1.2, hSegment.2, not_mem_splitOn rest name hName⟩
      have hText : slash :: rest = text (rest.splitOn slash) := by
        rw [text, List.intercalate_splitOn]
      rw [hText]
      exact congrArg text (resolveSegments_text hNames).symm

end Stim.IndexStore
