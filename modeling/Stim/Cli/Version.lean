import Mathlib.Algebra.Group.Nat.Defs
import Mathlib.Data.List.Basic
import Mathlib.Data.Int.Order.Basic

/-!
# Versions

`compareVersions` of `packages/stim-cli/bin/route.mjs`, and that it orders well-formed
versions as their keys are ordered.
-/

namespace Stim.Cli

/-- The groups of `SEMVER`. -/
structure Semver where
  major : String
  minor : String
  patch : String
  prerelease : Option String
  deriving DecidableEq

def isVersionChar (c : Char) : Bool := c.isAlphanum || c == '.' || c == '-'

def takeDigits (text : List Char) : Option (String × List Char) :=
  let digits := text.takeWhile Char.isDigit
  if digits.isEmpty then none else some (.ofList digits, text.dropWhile Char.isDigit)

/-- `(?:\+[0-9A-Za-z.-]+)?$` -/
def isVersionBuild : List Char → Bool
  | [] => true
  | '+' :: text => !text.isEmpty && text.all isVersionChar
  | _ => false

/-- What follows the three numbers: the prerelease, if it matches. -/
def versionSuffix : List Char → Option (Option String)
  | '-' :: text =>
      let prerelease := text.takeWhile isVersionChar
      if prerelease.isEmpty || !isVersionBuild (text.dropWhile isVersionChar) then none
      else some (some (.ofList prerelease))
  | text => if isVersionBuild text then some none else none

/-- `SEMVER.exec` -/
def semver (version : String) : Option Semver :=
  let text := match version.toList with
    | 'v' :: text => text
    | text => text
  match takeDigits text with
  | some (major, '.' :: text) => match takeDigits text with
    | some (minor, '.' :: text) => match takeDigits text with
      | some (patch, text) =>
          (versionSuffix text).map fun prerelease => ⟨major, minor, patch, prerelease⟩
      | none => none
    | _ => none
  | _ => none

/-- What a caller reads off a number that it compares with zero. -/
inductive Sign
  | negative | zero | positive | nan
  deriving DecidableEq

def Sign.ofOrdering : Ordering → Sign
  | .lt => .negative
  | .eq => .zero
  | .gt => .positive

def digitsValue (digits : String) : Nat := Nat.ofDigitChars 10 digits.toList 0

/-- What rounds to `Infinity`. -/
@[irreducible]
def doubleLimit : Nat := 2 ^ 1024

/-- The double nearest to `n`, ties to even; `none` is `Infinity`. -/
def toDouble (n : Nat) : Option Nat :=
  let unit := 2 ^ (n.log2 - 52)
  let rest := n % unit
  let rounded :=
    if unit < 2 * rest ∨ (unit = 2 * rest ∧ n / unit % 2 = 1) then (n / unit + 1) * unit
    else n / unit * unit
  if rounded < doubleLimit then some rounded else none

/-- `Number(p) - Number(q)` for two runs of digits. -/
def subtractDigits (p q : String) : Sign :=
  match toDouble (digitsValue p), toDouble (digitsValue q) with
  | some n, some m => .ofOrdering (compare n m)
  | some _, none => .negative
  | none, some _ => .positive
  | none, none => .nan

def identifiers (prerelease : String) : List String :=
  (prerelease.toList.splitOn '.').map String.ofList

def isNumeric (identifier : String) : Bool :=
  !identifier.toList.isEmpty && identifier.toList.all Char.isDigit

def compareIdentifiers : List String → List String → Sign
  | [], [] => .zero
  | [], _ :: _ => .negative
  | _ :: _, [] => .positive
  | p :: x, q :: y =>
      if p = q then compareIdentifiers x y
      else if isNumeric p && isNumeric q then subtractDigits p q
      else if isNumeric p then .negative
      else if isNumeric q then .positive
      else if compare p q = .lt then .negative
      else .positive

def comparePrerelease : Option String → Option String → Sign
  | some x, some y => compareIdentifiers (identifiers x) (identifiers y)
  | some _, none => .negative
  | none, some _ => .positive
  | none, none => .zero

/-- Orders two semver versions; `none` when either does not parse. -/
def compareVersions (left right : String) : Option Sign :=
  match semver left, semver right with
  | some a, some b => some (
      if a.major ≠ b.major then subtractDigits a.major b.major
      else if a.minor ≠ b.minor then subtractDigits a.minor b.minor
      else if a.patch ≠ b.patch then subtractDigits a.patch b.patch
      else comparePrerelease a.prerelease b.prerelease)
  | _, _ => none

example : compareVersions "1.51.0-next.20261106" "1.50.9" = some .positive := by decide +kernel
example : compareVersions "1.51.0-next.20261106" "1.51.0" = some .negative := by decide +kernel
example : compareVersions "1.51.0-next.10" "1.51.0-next.9" = some .positive := by decide +kernel

/-! ## Well-formed versions -/

/-- A number without leading zeros that `Number` reads exactly. -/
def isCanonical (digits : String) : Bool :=
  digits == (digitsValue digits).repr && decide (digitsValue digits < 2 ^ 53)

def canonicalPrerelease (prerelease : String) : Bool :=
  (identifiers prerelease).all fun id => !isNumeric id || isCanonical id

/-- A version that parses, with canonical numbers. -/
def wellFormed (version : String) : Bool :=
  match semver version with
  | none => false
  | some v => isCanonical v.major && isCanonical v.minor && isCanonical v.patch &&
      v.prerelease.all canonicalPrerelease

variable {p q : String}

theorem digitsValue_inj (hp : isCanonical p = true) (hq : isCanonical q = true)
    (h : digitsValue p = digitsValue q) : p = q := by
  have hp' : p = (digitsValue p).repr := by simpa using (Bool.and_eq_true_iff.mp hp).1
  have hq' : q = (digitsValue q).repr := by simpa using (Bool.and_eq_true_iff.mp hq).1
  rw [hp', hq', h]

/-- What a prerelease identifier is ordered by: numbers come first. -/
structure IdentifierKey where
  text : Bool
  number : Nat
  name : String

def IdentifierKey.order : IdentifierKey → IdentifierKey → Ordering :=
  compareLex (compareOn text) (compareLex (compareOn number) (compareOn name))

instance : Std.TransCmp IdentifierKey.order :=
  inferInstanceAs (Std.TransCmp (compareLex _ (compareLex _ _)))

def identifierKey (identifier : String) : IdentifierKey :=
  if isNumeric identifier then ⟨false, digitsValue identifier, ""⟩ else ⟨true, 0, identifier⟩

/-- What a version is ordered by: a release comes after its prereleases. -/
structure VersionKey where
  major : Nat
  minor : Nat
  patch : Nat
  release : Bool
  identifiers : List IdentifierKey

def VersionKey.order : VersionKey → VersionKey → Ordering :=
  compareLex (compareOn major) (compareLex (compareOn minor) (compareLex (compareOn patch)
    (compareLex (compareOn release)
      fun a b => List.compareLex IdentifierKey.order a.identifiers b.identifiers)))

instance : Std.TransCmp (fun a b : VersionKey =>
    List.compareLex IdentifierKey.order a.identifiers b.identifiers) where
  eq_swap := Std.OrientedCmp.eq_swap
  isLE_trans := Std.TransCmp.isLE_trans

instance : Std.TransCmp VersionKey.order :=
  inferInstanceAs (Std.TransCmp (compareLex _ (compareLex _ (compareLex _ (compareLex _ _)))))

def Semver.key (v : Semver) : VersionKey where
  major := digitsValue v.major
  minor := digitsValue v.minor
  patch := digitsValue v.patch
  release := v.prerelease.isNone
  identifiers := (v.prerelease.map identifiers).getD [] |>.map identifierKey

/-- The key of a version that parses. -/
def versionKey (version : String) : VersionKey :=
  ((semver version).map Semver.key).getD ⟨0, 0, 0, false, []⟩

theorem toDouble_of_lt {n : Nat} (h : n < 2 ^ 53) : toDouble n = some n := by
  have hlog : n.log2 - 52 = 0 := by
    rcases Nat.eq_zero_or_pos n with rfl | hpos
    · rfl
    · have := (Nat.log2_lt (Nat.pos_iff_ne_zero.mp hpos)).mpr h
      omega
  have hbig : n < doubleLimit := Nat.lt_trans h (by decide +kernel)
  simp [toDouble, hlog, Nat.mod_one, hbig]

theorem subtractDigits_of_canonical (hp : isCanonical p = true) (hq : isCanonical q = true) :
    subtractDigits p q = .ofOrdering (compare (digitsValue p) (digitsValue q)) := by
  have hp' : digitsValue p < 2 ^ 53 := of_decide_eq_true (Bool.and_eq_true_iff.mp hp).2
  have hq' : digitsValue q < 2 ^ 53 := of_decide_eq_true (Bool.and_eq_true_iff.mp hq).2
  simp only [subtractDigits, toDouble_of_lt hp', toDouble_of_lt hq']

theorem identifierKey_numeric {p : String} (h : isNumeric p = true) :
    identifierKey p = ⟨false, digitsValue p, ""⟩ := by
  rw [identifierKey, if_pos h]

theorem identifierKey_text {p : String} (h : isNumeric p = false) :
    identifierKey p = ⟨true, 0, p⟩ := by
  rw [identifierKey, if_neg (by simp [h])]

/-- Two distinct identifiers: the sign that `compareIdentifiers` gives is that of their keys. -/
theorem identifierKey_order (hne : p ≠ q) (hp : isNumeric p = true → isCanonical p = true)
    (hq : isNumeric q = true → isCanonical q = true) :
    IdentifierKey.order (identifierKey p) (identifierKey q) ≠ .eq ∧
      (if isNumeric p && isNumeric q then subtractDigits p q
        else if isNumeric p then .negative
        else if isNumeric q then .positive
        else if compare p q = .lt then .negative
        else .positive) =
      Sign.ofOrdering (IdentifierKey.order (identifierKey p) (identifierKey q)) := by
  cases np : isNumeric p with
  | true =>
      cases nq : isNumeric q with
      | true =>
          have hcmp : IdentifierKey.order (identifierKey p) (identifierKey q) =
              compare (digitsValue p) (digitsValue q) := by
            rw [identifierKey_numeric np, identifierKey_numeric nq]
            simp [IdentifierKey.order, compareLex, compareOn, Ordering.then_eq]
          refine ⟨?_, ?_⟩
          · rw [hcmp]
            intro heq
            exact hne (digitsValue_inj (hp np) (hq nq) (Nat.compare_eq_eq.mp heq))
          · rw [hcmp, ← subtractDigits_of_canonical (hp np) (hq nq), Bool.and_self, if_pos rfl]
      | false =>
          rw [identifierKey_numeric np, identifierKey_text nq]
          exact ⟨nofun, rfl⟩
  | false =>
      cases nq : isNumeric q with
      | true =>
          rw [identifierKey_text np, identifierKey_numeric nq]
          exact ⟨nofun, rfl⟩
      | false =>
          have hcmp : IdentifierKey.order (identifierKey p) (identifierKey q) = compare p q := by
            rw [identifierKey_text np, identifierKey_text nq]
            rfl
          have hstrict : compare p q ≠ .eq := by
            intro heq
            exact hne (Std.LawfulEqOrd.eq_of_compare heq)
          refine ⟨hcmp ▸ hstrict, ?_⟩
          rw [hcmp]
          cases hc : compare p q with
          | lt => rfl
          | eq => exact absurd hc hstrict
          | gt => rfl

theorem compareIdentifiers_order {x y : List String}
    (hx : ∀ id ∈ x, isNumeric id = true → isCanonical id = true)
    (hy : ∀ id ∈ y, isNumeric id = true → isCanonical id = true) :
    compareIdentifiers x y =
      .ofOrdering (List.compareLex IdentifierKey.order (x.map identifierKey)
        (y.map identifierKey)) := by
  induction x generalizing y with
  | nil =>
      cases y with
      | nil => rfl
      | cons q y => rfl
  | cons p x ih =>
      cases y with
      | nil => rfl
      | cons q y =>
          rw [compareIdentifiers, List.map_cons, List.map_cons, List.compareLex_cons_cons]
          by_cases heq : p = q
          · have hself : IdentifierKey.order (identifierKey q) (identifierKey q) = .eq :=
              Std.ReflCmp.compare_self
            rw [if_pos heq, heq, hself]
            exact ih (fun id hid => hx id (List.mem_cons_of_mem _ hid))
              (fun id hid => hy id (List.mem_cons_of_mem _ hid))
          · obtain ⟨hstrict, hsign⟩ := identifierKey_order heq
              (hx p List.mem_cons_self) (hy q List.mem_cons_self)
            rw [if_neg heq, hsign]
            cases ho : IdentifierKey.order (identifierKey p) (identifierKey q) with
            | lt => rfl
            | eq => exact absurd ho hstrict
            | gt => rfl

/-- One of the three numbers: it decides, or it is the same on both sides. -/
theorem subtractDigits_then (hp : isCanonical p = true) (hq : isCanonical q = true) {rest : Sign}
    {o : Ordering} (h : rest = .ofOrdering o) :
    (if p ≠ q then subtractDigits p q else rest) =
      Sign.ofOrdering ((compare (digitsValue p) (digitsValue q)).then o) := by
  by_cases heq : p = q
  · rw [if_neg (not_not_intro heq), heq, Nat.compare_eq_eq.mpr rfl]
    exact h
  · rw [if_pos heq, subtractDigits_of_canonical hp hq]
    cases hc : compare (digitsValue p) (digitsValue q) with
    | lt => rfl
    | eq => exact absurd (digitsValue_inj hp hq (Nat.compare_eq_eq.mp hc)) heq
    | gt => rfl

theorem comparePrerelease_order {x y : Option String} (hx : x.all canonicalPrerelease = true)
    (hy : y.all canonicalPrerelease = true) :
    comparePrerelease x y = .ofOrdering ((compare x.isNone y.isNone).then
      (List.compareLex IdentifierKey.order (((x.map identifiers).getD []).map identifierKey)
        (((y.map identifiers).getD []).map identifierKey))) := by
  cases x with
  | none =>
      cases y with
      | none => rfl
      | some y => rfl
  | some x =>
      cases y with
      | none => rfl
      | some y =>
          have hx' : ∀ id ∈ identifiers x, isNumeric id = true → isCanonical id = true := by
            simpa [Option.all, canonicalPrerelease, or_iff_not_imp_left] using hx
          have hy' : ∀ id ∈ identifiers y, isNumeric id = true → isCanonical id = true := by
            simpa [Option.all, canonicalPrerelease, or_iff_not_imp_left] using hy
          exact compareIdentifiers_order hx' hy'

/-- On well-formed versions `compareVersions` is the order of their keys. -/
theorem compareVersions_of_wellFormed {a b : String} (ha : wellFormed a = true)
    (hb : wellFormed b = true) :
    compareVersions a b = some (.ofOrdering (VersionKey.order (versionKey a) (versionKey b))) := by
  unfold wellFormed at ha hb
  cases hv : semver a with
  | none => simp [hv] at ha
  | some v =>
      cases hw : semver b with
      | none => simp [hw] at hb
      | some w =>
          simp only [hv, Bool.and_eq_true] at ha
          simp only [hw, Bool.and_eq_true] at hb
          obtain ⟨⟨⟨hmajor, hminor⟩, hpatch⟩, hpre⟩ := ha
          obtain ⟨⟨⟨hmajor', hminor'⟩, hpatch'⟩, hpre'⟩ := hb
          have hkeys := subtractDigits_then hmajor hmajor' (subtractDigits_then hminor hminor'
            (subtractDigits_then hpatch hpatch' (comparePrerelease_order hpre hpre')))
          simp only [compareVersions, hv, hw, versionKey, Option.map_some, Option.getD_some]
          exact congrArg some hkeys

end Stim.Cli
