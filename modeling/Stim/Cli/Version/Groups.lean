import Mathlib.Data.List.TakeWhile
import Stim.Cli.Version.Precedence

/-!
# The groups of a version

A version that parses is the text of its groups, behind an optional `v` and in front of the build
metadata.
-/

namespace Stim.Cli

/-- A version without a leading `v`. -/
def unprefixed (version : String) : List Char :=
  match version.toList with
  | 'v' :: text => text
  | text => text

/-- A version without a leading `v` and without its build metadata. -/
def withoutBuild (version : String) : List Char := (unprefixed version).takeWhile (· != '+')

def isDigits (text : List Char) : Prop := text ≠ [] ∧ ∀ c ∈ text, c.isDigit = true

def prereleaseText : Option String → List Char
  | none => []
  | some prerelease => '-' :: prerelease.toList

def Semver.text (v : Semver) : List Char :=
  v.major.toList ++ '.' :: (v.minor.toList ++ '.' ::
    (v.patch.toList ++ prereleaseText v.prerelease))

/-- The groups that the expression can match. -/
structure Semver.Valid (v : Semver) : Prop where
  major : isDigits v.major.toList
  minor : isDigits v.minor.toList
  patch : isDigits v.patch.toList
  prerelease : ∀ text, v.prerelease = some text →
    text.toList ≠ [] ∧ ∀ c ∈ text.toList, isVersionChar c = true

/-! ## Matching -/

theorem takeDigits_eq_some {text rest : List Char} {digits : String}
    (h : takeDigits text = some (digits, rest)) :
    isDigits digits.toList ∧ text = digits.toList ++ rest := by
  unfold takeDigits at h
  dsimp only at h
  split_ifs at h with hEmpty
  simp only [Option.some.injEq, Prod.mk.injEq] at h
  obtain ⟨rfl, rfl⟩ := h
  rw [String.toList_ofList]
  refine ⟨⟨?_, ?_⟩, List.takeWhile_append_dropWhile.symm⟩
  · simpa using hEmpty
  · intro c hc
    exact List.mem_takeWhile_imp hc

/-- A run of digits ends where no digit follows. -/
theorem takeDigits_append {digits rest : List Char} (h : isDigits digits)
    (hRest : ∀ c, rest.head? = some c → c.isDigit = false) :
    takeDigits (digits ++ rest) = some (String.ofList digits, rest) := by
  have hTake : (digits ++ rest).takeWhile Char.isDigit = digits := by
    rw [List.takeWhile_append_of_pos h.2]
    cases rest with
    | nil => simp
    | cons c rest => simp [hRest c rfl]
  have hDrop : (digits ++ rest).dropWhile Char.isDigit = rest := by
    rw [List.dropWhile_append_of_pos h.2]
    cases rest with
    | nil => rfl
    | cons c rest => simp [hRest c rfl]
  have hEmpty : digits.isEmpty = false := by simpa using h.1
  simp [takeDigits, hTake, hDrop, hEmpty]

theorem versionSuffix_eq_some {text : List Char} {prerelease : Option String}
    (h : versionSuffix text = some prerelease) :
    (∀ each, prerelease = some each →
      each.toList ≠ [] ∧ ∀ c ∈ each.toList, isVersionChar c = true) ∧
      ∃ build, isVersionBuild build = true ∧ text = prereleaseText prerelease ++ build := by
  unfold versionSuffix at h
  split at h
  · rename_i text
    dsimp only at h
    split_ifs at h with hBad
    simp only [Bool.or_eq_true, not_or, Bool.not_eq_true, Bool.not_eq_false'] at hBad
    obtain rfl := Option.some.inj h
    refine ⟨?_, _, hBad.2, ?_⟩
    · intro each hEach
      obtain rfl := Option.some.inj hEach
      rw [String.toList_ofList]
      exact ⟨by simpa using hBad.1, fun c hc => List.mem_takeWhile_imp hc⟩
    · rw [prereleaseText, String.toList_ofList, List.cons_append,
        List.takeWhile_append_dropWhile]
  · split_ifs at h with hBuild
    obtain rfl := Option.some.inj h
    exact ⟨nofun, _, hBuild, rfl⟩

/-- `(\d+)\.(\d+)\.(\d+)` with what the rest of an expression makes of the rest. -/
def matchVersion (suffix : List Char → Option (Option String)) (text : List Char) :
    Option Semver :=
  match takeDigits text with
  | some (major, '.' :: text) => match takeDigits text with
    | some (minor, '.' :: text) => match takeDigits text with
      | some (patch, text) =>
          (suffix text).map fun prerelease => ⟨major, minor, patch, prerelease⟩
      | none => none
    | _ => none
  | _ => none

theorem semver_eq (version : String) :
    semver version = matchVersion versionSuffix (unprefixed version) := rfl

variable {v : Semver}

/-- A version that parses is the text of its groups, in front of the build metadata. -/
theorem semver_eq_some {version : String} (h : semver version = some v) :
    v.Valid ∧ ∃ build, isVersionBuild build = true ∧ unprefixed version = v.text ++ build := by
  rw [semver_eq] at h
  generalize unprefixed version = text at h ⊢
  unfold matchVersion at h
  split at h
  · rename_i major text hMajor
    split at h
    · rename_i minor text hMinor
      split at h
      · rename_i patch text hPatch
        rw [Option.map_eq_some_iff] at h
        obtain ⟨prerelease, hSuffix, rfl⟩ := h
        obtain ⟨hMajorDigits, rfl⟩ := takeDigits_eq_some hMajor
        obtain ⟨hMinorDigits, rfl⟩ := takeDigits_eq_some hMinor
        obtain ⟨hPatchDigits, rfl⟩ := takeDigits_eq_some hPatch
        obtain ⟨hPrerelease, build, hBuild, rfl⟩ := versionSuffix_eq_some hSuffix
        refine ⟨⟨hMajorDigits, hMinorDigits, hPatchDigits, hPrerelease⟩, build, hBuild, ?_⟩
        simp [Semver.text]
      · cases h
    · cases h
  · cases h

/-- Groups are matched from their text, where the rest of the expression matches the rest. -/
theorem matchVersion_text {suffix : List Char → Option (Option String)} {build : List Char}
    (h : v.Valid) (hSuffix : suffix (prereleaseText v.prerelease ++ build) = some v.prerelease)
    (hBuild : ∀ c, build.head? = some c → c.isDigit = false) :
    matchVersion suffix (v.text ++ build) = some v := by
  have hDot (text : List Char) : ∀ c, ('.' :: text).head? = some c → c.isDigit = false := by
    intro c hc
    obtain rfl := Option.some.inj hc
    decide
  have hRest : ∀ c, (prereleaseText v.prerelease ++ build).head? = some c → c.isDigit = false := by
    cases hPre : v.prerelease with
    | none => simpa [prereleaseText] using hBuild
    | some text =>
        intro c hc
        obtain rfl := Option.some.inj hc
        decide
  rw [Semver.text, List.append_assoc, List.cons_append, List.append_assoc, List.cons_append,
    List.append_assoc, matchVersion]
  simp only [takeDigits_append h.major (hDot _), takeDigits_append h.minor (hDot _),
    takeDigits_append h.patch hRest, hSuffix, Option.map_some, String.ofList_toList]

/-! ## The text without build metadata -/

theorem isDigits_ne_plus {text : List Char} (h : isDigits text) : ∀ c ∈ text, (c != '+') = true := by
  intro c hc
  have hDigit := h.2 c hc
  rw [bne_iff_ne]
  rintro rfl
  revert hDigit
  decide

theorem isVersionChar_ne_plus {c : Char} (h : isVersionChar c = true) : (c != '+') = true := by
  rw [bne_iff_ne]
  rintro rfl
  revert h
  decide

/-- Behind what has no `+`, the build metadata begins with one. -/
theorem takeWhile_build {text build : List Char} (h : ∀ c ∈ text, (c != '+') = true)
    (hBuild : isVersionBuild build = true) :
    (text ++ build).takeWhile (· != '+') = text ∧ (text ++ build).dropWhile (· != '+') = build := by
  rw [List.takeWhile_append_of_pos h, List.dropWhile_append_of_pos h]
  cases build with
  | nil => simp
  | cons c build =>
      have hPlus : c = '+' := by
        by_contra hOther
        simp [isVersionBuild, hOther] at hBuild
      subst hPlus
      simp

theorem Semver.Valid.text_ne_plus (h : v.Valid) : ∀ c ∈ v.text, (c != '+') = true := by
  intro c hc
  simp only [Semver.text, List.mem_append, List.mem_cons] at hc
  rcases hc with hc | rfl | hc | rfl | hc | hc
  · exact isDigits_ne_plus h.major c hc
  · decide
  · exact isDigits_ne_plus h.minor c hc
  · decide
  · exact isDigits_ne_plus h.patch c hc
  · cases hPre : v.prerelease with
    | none => simp [hPre, prereleaseText] at hc
    | some text =>
        rw [hPre, prereleaseText, List.mem_cons] at hc
        rcases hc with rfl | hc
        · decide
        · exact isVersionChar_ne_plus ((h.prerelease text hPre).2 c hc)

theorem withoutBuild_eq {version : String} (h : semver version = some v) :
    withoutBuild version = v.text := by
  obtain ⟨hValid, build, hBuild, hText⟩ := semver_eq_some h
  rw [withoutBuild, hText]
  exact (takeWhile_build hValid.text_ne_plus hBuild).1

theorem versionSuffix_text (h : v.Valid) :
    versionSuffix (prereleaseText v.prerelease ++ []) = some v.prerelease := by
  cases hPre : v.prerelease with
  | none => rfl
  | some text =>
      obtain ⟨hEmpty, hChars⟩ := h.prerelease text hPre
      have hTake : text.toList.takeWhile isVersionChar = text.toList :=
        List.takeWhile_eq_self_iff.mpr hChars
      have hDrop : text.toList.dropWhile isVersionChar = [] :=
        List.dropWhile_eq_nil_iff.mpr hChars
      simp [prereleaseText, versionSuffix, hTake, hDrop, isVersionBuild, hEmpty]

theorem text_injective {v w : Semver} (hv : v.Valid) (hw : w.Valid) (h : v.text = w.text) :
    v = w := by
  have hMatch := matchVersion_text hv (versionSuffix_text hv) nofun
  rw [h, matchVersion_text hw (versionSuffix_text hw) nofun] at hMatch
  exact (Option.some.inj hMatch).symm

/-- Versions have the same groups exactly when they are equal up to a leading `v` and build
metadata. -/
theorem groups_eq_iff {a b : String} {v w : Semver} (ha : semver a = some v)
    (hb : semver b = some w) : v = w ↔ withoutBuild a = withoutBuild b := by
  rw [withoutBuild_eq ha, withoutBuild_eq hb]
  constructor
  · rintro rfl
    rfl
  · exact text_injective (semver_eq_some ha).1 (semver_eq_some hb).1

end Stim.Cli
