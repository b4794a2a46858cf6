import Stim.Cli.Version

/-!
# Precedence

The rules by which semantic versions precede each other, and that the keys of well-formed versions
are ordered by them.
-/

namespace Stim.Cli

/-! ## The rules -/

/-- Numeric identifiers compare by their numbers and precede the others, which compare as texts. -/
inductive IdentifierPrecedes : String → String → Prop
  | numbers {p q : String} (hp : isNumeric p = true) (hq : isNumeric q = true)
      (h : digitsValue p < digitsValue q) : IdentifierPrecedes p q
  | numberText {p q : String} (hp : isNumeric p = true) (hq : isNumeric q = false) :
      IdentifierPrecedes p q
  | texts {p q : String} (hp : isNumeric p = false) (hq : isNumeric q = false) (h : p < q) :
      IdentifierPrecedes p q

/-- The first difference decides; without one, fewer identifiers precede more. -/
inductive IdentifiersPrecede : List String → List String → Prop
  | fewer {q : String} {y : List String} : IdentifiersPrecede [] (q :: y)
  | first {p q : String} {x y : List String} (h : IdentifierPrecedes p q) :
      IdentifiersPrecede (p :: x) (q :: y)
  | rest {p : String} {x y : List String} (h : IdentifiersPrecede x y) :
      IdentifiersPrecede (p :: x) (p :: y)

/-- A prerelease precedes its release. -/
inductive PrereleasePrecedes : Option String → Option String → Prop
  | release {x : String} : PrereleasePrecedes (some x) none
  | identifiers {x y : String} (h : IdentifiersPrecede (identifiers x) (identifiers y)) :
      PrereleasePrecedes (some x) (some y)

/-- The three numbers decide in their order, and then the prereleases. -/
inductive Precedes (v w : Semver) : Prop
  | major (h : digitsValue v.major < digitsValue w.major)
  | minor (hMajor : digitsValue v.major = digitsValue w.major)
      (h : digitsValue v.minor < digitsValue w.minor)
  | patch (hMajor : digitsValue v.major = digitsValue w.major)
      (hMinor : digitsValue v.minor = digitsValue w.minor)
      (h : digitsValue v.patch < digitsValue w.patch)
  | prerelease (hMajor : digitsValue v.major = digitsValue w.major)
      (hMinor : digitsValue v.minor = digitsValue w.minor)
      (hPatch : digitsValue v.patch = digitsValue w.patch)
      (h : PrereleasePrecedes v.prerelease w.prerelease)

/-! ## The keys follow the rules -/

theorem identifierKey_order_lt {p q : String} :
    IdentifierKey.order (identifierKey p) (identifierKey q) = .lt ↔ IdentifierPrecedes p q := by
  cases hp : isNumeric p with
  | true =>
      rw [identifierKey_numeric hp]
      cases hq : isNumeric q with
      | true =>
          have hOrder : IdentifierKey.order ⟨false, digitsValue p, ""⟩ ⟨false, digitsValue q, ""⟩ =
              compare (digitsValue p) (digitsValue q) := by
            simp [IdentifierKey.order, compareLex, compareOn, Ordering.then_eq]
          rw [identifierKey_numeric hq, hOrder, Nat.compare_eq_lt]
          constructor
          · exact .numbers hp hq
          · intro h
            cases h with
            | numbers _ _ h => exact h
            | numberText _ hText => simp [hq] at hText
            | texts hText => simp [hp] at hText
      | false =>
          rw [identifierKey_text hq]
          exact ⟨fun _ => .numberText hp hq, fun _ => rfl⟩
  | false =>
      rw [identifierKey_text hp]
      cases hq : isNumeric q with
      | true =>
          rw [identifierKey_numeric hq]
          constructor
          · intro h
            cases h
          · intro h
            cases h with
            | numbers hNumber => simp [hp] at hNumber
            | numberText hNumber => simp [hp] at hNumber
            | texts _ hText => simp [hq] at hText
      | false =>
          have hOrder : IdentifierKey.order ⟨true, 0, p⟩ ⟨true, 0, q⟩ = compare p q := rfl
          rw [identifierKey_text hq, hOrder]
          have hLess : compare p q = .lt ↔ p < q := compareOfLessAndEq_eq_lt
          rw [hLess]
          constructor
          · exact .texts hp hq
          · intro h
            cases h with
            | numbers hNumber => simp [hp] at hNumber
            | numberText hNumber => simp [hp] at hNumber
            | texts _ _ h => exact h

/-- Identifiers with numbers in their shortest form. -/
abbrev Canonical (ids : List String) : Prop :=
  ∀ id ∈ ids, isNumeric id = true → isCanonical id = true

theorem identifierKey_order_eq {p q : String} (hp : isNumeric p = true → isCanonical p = true)
    (hq : isNumeric q = true → isCanonical q = true) :
    IdentifierKey.order (identifierKey p) (identifierKey q) = .eq ↔ p = q := by
  constructor
  · intro h
    by_contra hne
    exact (identifierKey_order hne hp hq).1 h
  · rintro rfl
    exact Std.ReflCmp.compare_self

theorem identifiers_order_lt {x y : List String} (hx : Canonical x) (hy : Canonical y) :
    List.compareLex IdentifierKey.order (x.map identifierKey) (y.map identifierKey) = .lt ↔
      IdentifiersPrecede x y := by
  induction x generalizing y with
  | nil =>
      cases y with
      | nil => exact ⟨nofun, nofun⟩
      | cons q y => exact ⟨fun _ => .fewer, fun _ => rfl⟩
  | cons p x ih =>
      cases y with
      | nil => exact ⟨nofun, nofun⟩
      | cons q y =>
          have hp := hx p List.mem_cons_self
          have hq := hy q List.mem_cons_self
          have hRest := ih (fun id hid => hx id (List.mem_cons_of_mem _ hid))
            (fun id hid => hy id (List.mem_cons_of_mem _ hid))
          rw [List.map_cons, List.map_cons, List.compareLex_cons_cons]
          constructor
          · intro h
            cases ho : IdentifierKey.order (identifierKey p) (identifierKey q) with
            | lt => exact .first (identifierKey_order_lt.mp ho)
            | eq =>
                rw [ho] at h
                obtain rfl := (identifierKey_order_eq hp hq).mp ho
                exact .rest (hRest.mp h)
            | gt =>
                rw [ho] at h
                cases h
          · intro h
            cases h with
            | first h => rw [identifierKey_order_lt.mpr h]; rfl
            | rest h =>
                rw [(identifierKey_order_eq hp hp).mpr rfl]
                exact hRest.mpr h

theorem identifiers_order_eq {x y : List String} (hx : Canonical x) (hy : Canonical y) :
    List.compareLex IdentifierKey.order (x.map identifierKey) (y.map identifierKey) = .eq ↔
      x = y := by
  induction x generalizing y with
  | nil => cases y <;> simp [List.compareLex]
  | cons p x ih =>
      cases y with
      | nil => simp [List.compareLex]
      | cons q y =>
          have hRest := ih (fun id hid => hx id (List.mem_cons_of_mem _ hid))
            (fun id hid => hy id (List.mem_cons_of_mem _ hid))
          rw [List.map_cons, List.map_cons, List.compareLex_cons_cons, Ordering.then_eq_eq,
            identifierKey_order_eq (hx p List.mem_cons_self) (hy q List.mem_cons_self), hRest,
            List.cons.injEq]

theorem canonicalPrerelease_iff {prerelease : String} :
    canonicalPrerelease prerelease = true ↔ Canonical (identifiers prerelease) := by
  simp [canonicalPrerelease, or_iff_not_imp_left]

/-- The groups of a well-formed version. -/
structure Semver.WellFormed (v : Semver) : Prop where
  major : isCanonical v.major = true
  minor : isCanonical v.minor = true
  patch : isCanonical v.patch = true
  prerelease : ∀ text, v.prerelease = some text → Canonical (Cli.identifiers text)

theorem wellFormed_iff {version : String} :
    wellFormed version = true ↔ ∃ v, semver version = some v ∧ v.WellFormed := by
  unfold wellFormed
  cases semver version with
  | none => simp
  | some v =>
      simp only [Bool.and_eq_true, Option.some.injEq, exists_eq_left']
      constructor
      · rintro ⟨⟨⟨hMajor, hMinor⟩, hPatch⟩, hPre⟩
        refine ⟨hMajor, hMinor, hPatch, fun text hText => ?_⟩
        rw [hText, Option.all_some] at hPre
        exact canonicalPrerelease_iff.mp hPre
      · rintro ⟨hMajor, hMinor, hPatch, hPre⟩
        refine ⟨⟨⟨hMajor, hMinor⟩, hPatch⟩, ?_⟩
        cases hText : v.prerelease with
        | none => rfl
        | some text =>
            rw [Option.all_some]
            exact canonicalPrerelease_iff.mpr (hPre text hText)

/-- The order of two prereleases, where a missing one is the release. -/
def prereleaseOrder (x y : Option String) : Ordering :=
  (compare x.isNone y.isNone).then
    (List.compareLex IdentifierKey.order (((x.map identifiers).getD []).map identifierKey)
      (((y.map identifiers).getD []).map identifierKey))

theorem prereleaseOrder_lt {x y : Option String}
    (hx : ∀ text, x = some text → Canonical (identifiers text))
    (hy : ∀ text, y = some text → Canonical (identifiers text)) :
    prereleaseOrder x y = .lt ↔ PrereleasePrecedes x y := by
  cases x with
  | none =>
      cases y with
      | none => exact ⟨nofun, nofun⟩
      | some y => exact ⟨nofun, nofun⟩
  | some x =>
      cases y with
      | none => exact ⟨fun _ => .release, fun _ => rfl⟩
      | some y =>
          have hOrder := identifiers_order_lt (hx x rfl) (hy y rfl)
          constructor
          · intro h
            exact .identifiers (hOrder.mp h)
          · intro h
            cases h with
            | identifiers h => exact hOrder.mpr h

theorem key_order (v w : Semver) : VersionKey.order v.key w.key =
    (compare (digitsValue v.major) (digitsValue w.major)).then
      ((compare (digitsValue v.minor) (digitsValue w.minor)).then
        ((compare (digitsValue v.patch) (digitsValue w.patch)).then
          (prereleaseOrder v.prerelease w.prerelease))) := rfl

/-- The keys of well-formed versions are ordered as the rules say. -/
theorem key_order_lt {v w : Semver} (hv : v.WellFormed) (hw : w.WellFormed) :
    VersionKey.order v.key w.key = .lt ↔ Precedes v w := by
  have hPrerelease := prereleaseOrder_lt hv.prerelease hw.prerelease
  rw [key_order]
  simp only [Ordering.then_eq_lt, Nat.compare_eq_lt, Nat.compare_eq_eq, hPrerelease]
  constructor
  · rintro (h | ⟨hMajor, h | ⟨hMinor, h | ⟨hPatch, h⟩⟩⟩)
    · exact .major h
    · exact .minor hMajor h
    · exact .patch hMajor hMinor h
    · exact .prerelease hMajor hMinor hPatch h
  · intro h
    cases h with
    | major h => exact Or.inl h
    | minor hMajor h => exact Or.inr ⟨hMajor, Or.inl h⟩
    | patch hMajor hMinor h => exact Or.inr ⟨hMajor, Or.inr ⟨hMinor, Or.inl h⟩⟩
    | prerelease hMajor hMinor hPatch h =>
        exact Or.inr ⟨hMajor, Or.inr ⟨hMinor, Or.inr ⟨hPatch, h⟩⟩⟩

theorem identifiers_injective : Function.Injective identifiers := by
  intro x y h
  have hSplit : x.toList.splitOn '.' = y.toList.splitOn '.' :=
    (List.map_injective_iff.mpr fun _ _ h => String.ofList_injective h) h
  have hJoin := congrArg (List.intercalate ['.']) hSplit
  rw [List.intercalate_splitOn, List.intercalate_splitOn] at hJoin
  exact String.toList_inj.mp hJoin

/-- Only equal groups have keys that compare equal. -/
theorem key_order_eq {v w : Semver} (hv : v.WellFormed) (hw : w.WellFormed) :
    VersionKey.order v.key w.key = .eq ↔ v = w := by
  constructor
  · intro h
    rw [key_order, Ordering.then_eq_eq, Ordering.then_eq_eq, Ordering.then_eq_eq,
      Nat.compare_eq_eq, Nat.compare_eq_eq, Nat.compare_eq_eq] at h
    obtain ⟨hMajor, hMinor, hPatch, hPre⟩ := h
    have hEqual : v.prerelease = w.prerelease := by
      unfold prereleaseOrder at hPre
      rw [Ordering.then_eq_eq] at hPre
      cases hx : v.prerelease with
      | none =>
          cases hy : w.prerelease with
          | none => rfl
          | some y => simp [hx, hy] at hPre
      | some x =>
          cases hy : w.prerelease with
          | none => simp [hx, hy] at hPre
          | some y =>
              rw [hx, hy] at hPre
              have hIds := (identifiers_order_eq (hv.prerelease x hx) (hw.prerelease y hy)).mp hPre.2
              rw [identifiers_injective hIds]
    have hMajor' := digitsValue_inj hv.major hw.major hMajor
    have hMinor' := digitsValue_inj hv.minor hw.minor hMinor
    have hPatch' := digitsValue_inj hv.patch hw.patch hPatch
    cases v
    cases w
    simp_all
  · rintro rfl
    exact Std.ReflCmp.compare_self

end Stim.Cli
