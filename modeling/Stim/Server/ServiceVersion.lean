import Stim.Cli.Version.Groups

/-!
# Versions of the server's service

`compareVersions` of `packages/server/src/service-plist.ts` reads versions by an expression of its
own, and agrees with the command line's on the well-formed versions.
-/

namespace Stim.ServiceVersion

open Stim.Cli

/-- What `.` does not match. -/
def isLineEnd (c : Char) : Bool := c == '\n' || c == '\r' || c == '\u2028' || c == '\u2029'

/-- `(?:\+.*)?$` -/
def isBuild : List Char → Bool
  | [] => true
  | '+' :: text => text.all fun c => !isLineEnd c
  | _ => false

/-- `(?:-([^+]+))?` with the build metadata behind it -/
def suffix : List Char → Option (Option String)
  | '-' :: text =>
      let prerelease := text.takeWhile (· != '+')
      if prerelease.isEmpty || !isBuild (text.dropWhile (· != '+')) then none
      else some (some (.ofList prerelease))
  | text => if isBuild text then some none else none

def parseVersion (version : String) : Option Semver := matchVersion suffix version.toList

/-- A difference that is neither zero nor `NaN`. -/
def isDifference (diff : Sign) : Bool := diff == .negative || diff == .positive

def compareIdentifiers : List String → List String → Sign
  | [], [] => .zero
  | [], _ :: _ => .negative
  | _ :: _, [] => .positive
  | x :: ap, y :: bp =>
      if x = y then compareIdentifiers ap bp
      else if isNumeric x && isNumeric y then subtractDigits x y
      else if isNumeric x != isNumeric y then if isNumeric x then .negative else .positive
      else if compare x y = .lt then .negative
      else .positive

def comparePrerelease : Option String → Option String → Sign
  | some x, some y => compareIdentifiers (identifiers x) (identifiers y)
  | some _, none => .negative
  | none, some _ => .positive
  | none, none => .zero

/-- Orders two versions; `none` is the `ServiceError` of one that does not parse. -/
def compareVersions (a b : String) : Option Sign :=
  match parseVersion a, parseVersion b with
  | some aa, some bb => some (
      let major := subtractDigits aa.major bb.major
      let minor := subtractDigits aa.minor bb.minor
      let patch := subtractDigits aa.patch bb.patch
      if isDifference major then major
      else if isDifference minor then minor
      else if isDifference patch then patch
      else comparePrerelease aa.prerelease bb.prerelease)
  | _, _ => none

/-! ## Agreement -/

theorem isBuild_of_isVersionBuild {build : List Char} (h : isVersionBuild build = true) :
    isBuild build = true := by
  cases build with
  | nil => rfl
  | cons c build =>
      have hPlus : c = '+' := by
        by_contra hOther
        simp [isVersionBuild, hOther] at h
      subst hPlus
      simp only [isVersionBuild, Bool.and_eq_true, List.all_eq_true] at h
      rw [isBuild, List.all_eq_true]
      intro c hc
      have hChar := h.2 c hc
      rw [Bool.not_eq_true']
      by_contra hLine
      simp only [isLineEnd, Bool.or_eq_true, beq_iff_eq, Bool.not_eq_false] at hLine
      rcases hLine with ((rfl | rfl) | rfl) | rfl <;> revert hChar <;> decide

theorem suffix_text {v : Semver} {build : List Char} (h : v.Valid)
    (hBuild : isVersionBuild build = true) :
    suffix (prereleaseText v.prerelease ++ build) = some v.prerelease := by
  have hBuild' := isBuild_of_isVersionBuild hBuild
  cases hPre : v.prerelease with
  | none =>
      cases build with
      | nil => rfl
      | cons c build =>
          have hPlus : c = '+' := by
            by_contra hOther
            simp [isVersionBuild, hOther] at hBuild
          subst hPlus
          simp [prereleaseText, suffix, hBuild']
  | some text =>
      obtain ⟨hEmpty, hChars⟩ := h.prerelease text hPre
      obtain ⟨hTake, hDrop⟩ := takeWhile_build
        (fun c hc => isVersionChar_ne_plus (hChars c hc)) hBuild
      simp only [prereleaseText, List.cons_append, suffix, hTake, hDrop, hBuild', Bool.not_true,
        Bool.or_false, List.isEmpty_iff, hEmpty, if_false, String.ofList_toList]

/-- Without a leading `v`, both expressions find the same groups. -/
theorem parseVersion_eq {version : String} {v : Semver} (h : semver version = some v)
    (hPrefix : version.toList.head? ≠ some 'v') : parseVersion version = some v := by
  obtain ⟨hValid, build, hBuild, hText⟩ := semver_eq_some h
  have hSame : unprefixed version = version.toList := by
    unfold unprefixed
    split
    · rename_i text hVersion
      rw [hVersion] at hPrefix
      exact absurd rfl hPrefix
    · rfl
  rw [parseVersion, ← hSame, hText]
  refine matchVersion_text hValid (suffix_text hValid hBuild) ?_
  intro c hc
  cases build with
  | nil => cases hc
  | cons d build =>
      obtain rfl := Option.some.inj hc
      by_contra hDigit
      have hOther : d ≠ '+' := by
        rintro rfl
        exact hDigit (by decide)
      simp [isVersionBuild, hOther] at hBuild

theorem compareIdentifiers_eq (x y : List String) :
    compareIdentifiers x y = Cli.compareIdentifiers x y := by
  induction x generalizing y with
  | nil => cases y <;> rfl
  | cons p x ih =>
      cases y with
      | nil => rfl
      | cons q y =>
          rw [compareIdentifiers, Cli.compareIdentifiers, ih]
          cases isNumeric p <;> cases isNumeric q <;> rfl

theorem comparePrerelease_eq (x y : Option String) :
    comparePrerelease x y = Cli.comparePrerelease x y := by
  cases x <;> cases y <;> try rfl
  exact compareIdentifiers_eq _ _

/-- A number decides by its value here and by its text there, which is the same. -/
theorem difference_then {p q : String} (hp : isCanonical p = true) (hq : isCanonical q = true)
    {rest rest' : Sign} (h : rest = rest') :
    (if isDifference (subtractDigits p q) then subtractDigits p q else rest) =
      if p ≠ q then subtractDigits p q else rest' := by
  rw [subtractDigits_of_canonical hp hq, h]
  by_cases hEqual : p = q
  · rw [hEqual, Nat.compare_eq_eq.mpr rfl, if_neg (not_not_intro rfl)]
    rfl
  · rw [if_pos hEqual]
    cases hc : compare (digitsValue p) (digitsValue q) with
    | lt => rfl
    | eq => exact absurd (digitsValue_inj hp hq (Nat.compare_eq_eq.mp hc)) hEqual
    | gt => rfl

theorem compareVersions_eq {a b : String} (ha : wellFormed a = true) (hb : wellFormed b = true)
    (ha' : a.toList.head? ≠ some 'v') (hb' : b.toList.head? ≠ some 'v') :
    compareVersions a b = Cli.compareVersions a b := by
  obtain ⟨v, hv, hvWell⟩ := wellFormed_iff.mp ha
  obtain ⟨w, hw, hwWell⟩ := wellFormed_iff.mp hb
  simp only [compareVersions, Cli.compareVersions, parseVersion_eq hv ha', parseVersion_eq hw hb',
    hv, hw]
  exact congrArg some (difference_then hvWell.major hwWell.major
    (difference_then hvWell.minor hwWell.minor
      (difference_then hvWell.patch hwWell.patch (comparePrerelease_eq _ _))))

end Stim.ServiceVersion
