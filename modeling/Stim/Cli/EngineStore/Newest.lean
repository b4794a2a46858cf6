import Stim.Cli.EngineStore.Keep
import Stim.Server.ServiceVersion

/-!
# The newest version

Versions are ordered by precedence, here and in the server, so the last of the sorted bad versions
is a greatest one.
-/

namespace Stim.Cli

/-- The sign of the difference the other way around. -/
def Sign.opposite : Sign → Sign
  | .negative => .positive
  | .zero => .zero
  | .positive => .negative
  | .nan => .nan

theorem Sign.ofOrdering_swap (o : Ordering) : ofOrdering o.swap = (ofOrdering o).opposite := by
  cases o <;> rfl

theorem Sign.ofOrdering_ne_positive {o : Ordering} : ofOrdering o ≠ .positive ↔ o.isLE = true := by
  cases o <;> simp [ofOrdering]

section wellFormed

variable {a b c : String}

theorem versionKey_eq {version : String} {v : Semver} (h : semver version = some v) :
    versionKey version = v.key := by
  rw [versionKey, h]
  rfl

/-- The comparison is the order of the groups' keys. -/
theorem compareVersions_eq_key {v w : Semver} (ha : wellFormed a = true) (hb : wellFormed b = true)
    (hv : semver a = some v) (hw : semver b = some w) :
    compareVersions a b = some (.ofOrdering (VersionKey.order v.key w.key)) := by
  rw [compareVersions_of_wellFormed ha hb, versionKey_eq hv, versionKey_eq hw]

theorem compareVersions_swap (ha : wellFormed a = true) (hb : wellFormed b = true) :
    ∃ sign, compareVersions a b = some sign ∧ compareVersions b a = some sign.opposite := by
  refine ⟨_, compareVersions_of_wellFormed ha hb, ?_⟩
  rw [compareVersions_of_wellFormed hb ha, ← Sign.ofOrdering_swap]
  congr 2
  exact Std.OrientedCmp.eq_swap

theorem compareVersions_trans (ha : wellFormed a = true) (hb : wellFormed b = true)
    (hc : wellFormed c = true) (hab : compareVersions a b ≠ some .positive)
    (hbc : compareVersions b c ≠ some .positive) : compareVersions a c ≠ some .positive := by
  rw [compareVersions_of_wellFormed ha hb, Ne, Option.some.injEq] at hab
  rw [compareVersions_of_wellFormed hb hc, Ne, Option.some.injEq] at hbc
  rw [compareVersions_of_wellFormed ha hc, Ne, Option.some.injEq]
  exact Sign.ofOrdering_ne_positive.mpr (Std.TransCmp.isLE_trans
    (Sign.ofOrdering_ne_positive.mp hab) (Sign.ofOrdering_ne_positive.mp hbc))

theorem compareVersions_zero (ha : wellFormed a = true) (hb : wellFormed b = true) :
    compareVersions a b = some .zero ↔ withoutBuild a = withoutBuild b := by
  obtain ⟨v, hv, hvWell⟩ := wellFormed_iff.mp ha
  obtain ⟨w, hw, hwWell⟩ := wellFormed_iff.mp hb
  rw [compareVersions_eq_key ha hb hv hw, ← groups_eq_iff hv hw, ← key_order_eq hvWell hwWell,
    Option.some.injEq]
  cases VersionKey.order v.key w.key <;> simp [Sign.ofOrdering]

theorem compareVersions_negative (ha : wellFormed a = true) (hb : wellFormed b = true) :
    compareVersions a b = some .negative ↔
      ∃ v w, semver a = some v ∧ semver b = some w ∧ Precedes v w := by
  obtain ⟨v, hv, hvWell⟩ := wellFormed_iff.mp ha
  obtain ⟨w, hw, hwWell⟩ := wellFormed_iff.mp hb
  have hKeys : Sign.ofOrdering (VersionKey.order v.key w.key) = .negative ↔ Precedes v w := by
    rw [← key_order_lt hvWell hwWell]
    cases VersionKey.order v.key w.key <;> simp [Sign.ofOrdering]
  rw [compareVersions_eq_key ha hb hv hw, Option.some.injEq, hKeys, hv, hw]
  simp

end wellFormed

/-- The last of the sorted versions is one that no other is above. -/
theorem newestBad_greatest (toSorted : VersionSort) {bad : List BadBuild} (hNonempty : bad ≠ [])
    (hBad : ∀ each ∈ bad, wellFormed each.version = true) :
    ∃ newest ∈ bad, newestBad toSorted bad = some newest.version ∧
      ∀ each ∈ bad, compareVersions each.version newest.version = some .negative ∨
        compareVersions each.version newest.version = some .zero := by
  obtain ⟨first, hFirst⟩ := List.exists_mem_of_ne_nil bad hNonempty
  obtain ⟨worst, hWorst⟩ := newestBad_isSome toSorted hFirst
  obtain ⟨newest, hMem, rfl⟩ := newestBad_mem hWorst
  refine ⟨newest, hMem, hWorst, ?_⟩
  intro each hEach
  have hOrder := le_newestBad hWorst hBad hEach
  rw [compareVersions_of_wellFormed (hBad each hEach) (hBad newest hMem)]
  cases hKeys : VersionKey.order (versionKey each.version) (versionKey newest.version) with
  | lt => exact Or.inl rfl
  | eq => exact Or.inr rfl
  | gt => simp [hKeys] at hOrder

/-- `compareVersions` orders the well-formed versions by precedence, up to what precedence does not
look at, as the server's does; and `newestBad` is a greatest bad version. -/
theorem order_is_precedence {a b c : String} (ha : wellFormed a = true) (hb : wellFormed b = true)
    (hc : wellFormed c = true) :
    (∃ sign, compareVersions a b = some sign ∧ compareVersions b a = some sign.opposite) ∧
    (compareVersions a b ≠ some .positive → compareVersions b c ≠ some .positive →
      compareVersions a c ≠ some .positive) ∧
    (compareVersions a b = some .zero ↔ withoutBuild a = withoutBuild b) ∧
    (compareVersions a b = some .negative ↔
      ∃ v w, semver a = some v ∧ semver b = some w ∧ Precedes v w) ∧
    (a.toList.head? ≠ some 'v' → b.toList.head? ≠ some 'v' →
      ServiceVersion.compareVersions a b = compareVersions a b) ∧
    ∀ (toSorted : VersionSort) (bad : List BadBuild), bad ≠ [] →
      (∀ each ∈ bad, wellFormed each.version = true) →
      ∃ newest ∈ bad, newestBad toSorted bad = some newest.version ∧
        ∀ each ∈ bad, compareVersions each.version newest.version = some .negative ∨
          compareVersions each.version newest.version = some .zero := by
  refine ⟨compareVersions_swap ha hb, compareVersions_trans ha hb hc, compareVersions_zero ha hb,
    compareVersions_negative ha hb, ServiceVersion.compareVersions_eq ha hb, ?_⟩
  intro toSorted bad hNonempty hBad
  exact newestBad_greatest toSorted hNonempty hBad

/-- Three versions with prereleases of different lengths and kinds. -/
theorem order_is_precedence_prereleases :
    compareVersions "1.0.0-next.2" "1.0.0-next.10" = some .negative ∧
      compareVersions "1.0.0-next.10" "1.0.0-next.x.1" = some .negative ∧
      compareVersions "1.0.0-next.2" "1.0.0-next.x.1" ≠ some .positive := by
  have hFirst : compareVersions "1.0.0-next.2" "1.0.0-next.10" = some .negative := by
    decide +kernel
  have hSecond : compareVersions "1.0.0-next.10" "1.0.0-next.x.1" = some .negative := by
    decide +kernel
  have hWell : wellFormed "1.0.0-next.2" = true ∧ wellFormed "1.0.0-next.10" = true ∧
      wellFormed "1.0.0-next.x.1" = true := by decide +kernel
  obtain ⟨-, hTrans, -⟩ := order_is_precedence hWell.1 hWell.2.1 hWell.2.2
  refine ⟨hFirst, hSecond, hTrans ?_ ?_⟩
  · rw [hFirst]
    decide
  · rw [hSecond]
    decide

end Stim.Cli
