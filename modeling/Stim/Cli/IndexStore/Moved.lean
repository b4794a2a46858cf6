import Stim.Cli.IndexStore

/-!
# Moved paths

A path lies within a root when its names begin with the root's, however the path is written.  The
paths of a value that is relocated and located again move from the roots of one checkout to those
of the other.
-/

namespace Stim.IndexStore

open PosixPath

/-! ## Lying within a root -/

theorem splitOn_text {segments : List JsString} (h : ∀ name ∈ segments, IsName name)
    (hSegments : segments ≠ []) : (text segments).splitOn slash = [] :: segments := by
  have hSplit := List.splitOn_append_cons_self (a := slash) []
    (List.intercalate [slash] segments)
  rw [List.nil_append] at hSplit
  rw [text, hSplit, splitOn_names h hSegments]
  rfl

theorem text_append {x y : List JsString} (hx : x ≠ []) (hy : y ≠ []) :
    text (x ++ y) = text x ++ slash :: List.intercalate [slash] y := by
  rw [text, text, List.cons_append]
  congr 1
  induction x with
  | nil => exact absurd rfl hx
  | cons name x ih =>
      cases x with
      | nil =>
          rw [List.singleton_append, List.intercalate_cons_of_ne_nil hy, List.intercalate_singleton]
          simp only [List.append_assoc, List.singleton_append]
      | cons next x =>
          have hRest := ih (List.cons_ne_nil _ _)
          rw [List.cons_append, List.cons_append, List.intercalate_cons_cons,
            List.intercalate_cons_cons, ← List.cons_append, hRest]
          simp only [List.append_assoc]

/-- Of normal paths, the text of one lies within the text of the other. -/
theorem startsWith_text {x y : List JsString} (hx : ∀ name ∈ x, IsName name)
    (hy : ∀ name ∈ y, IsName name) :
    (text y = text x ∨ (if text x = [slash] then text x else text x ++ [slash]) <+: text y) ↔
      x <+: y := by
  have hRoot : text x = [slash] ↔ x = [] := by
    constructor
    · exact fun h => text_injective hx nofun h
    · rintro rfl
      rfl
  by_cases hEmpty : x = []
  · subst hEmpty
    rw [if_pos (hRoot.mpr rfl)]
    exact ⟨fun _ => List.nil_prefix, fun _ => Or.inr ⟨List.intercalate [slash] y, rfl⟩⟩
  rw [if_neg (fun h => hEmpty (hRoot.mp h))]
  constructor
  · rintro (hEqual | ⟨more, hMore⟩)
    · have hSame := text_injective hy hx hEqual
      subst hSame
      exact List.prefix_refl _
    · -- both sides are split at their slashes
      have hSplit := congrArg (List.splitOn slash) hMore
      have hNonempty : y ≠ [] := by
        rintro rfl
        have hLength := congrArg List.length hMore
        rw [text] at hLength
        simp [text] at hLength
      rw [List.append_assoc, List.singleton_append, List.splitOn_append_cons_self,
        splitOn_text hx hEmpty, splitOn_text hy hNonempty, List.cons_append,
        List.cons.injEq] at hSplit
      exact ⟨_, hSplit.2⟩
  · rintro ⟨rest, rfl⟩
    by_cases hRest : rest = []
    · rw [hRest, List.append_nil]
      exact Or.inl rfl
    · refine Or.inr ⟨List.intercalate [slash] rest, ?_⟩
      rw [text_append hEmpty hRest, List.append_assoc]
      rfl

/-- The way down begins with no dots. -/
theorem descends {segments : List JsString} (h : ∀ name ∈ segments, IsName name) :
    (List.intercalate [slash] segments == [] ||
      (List.intercalate [slash] segments != parent &&
        !(parent ++ [slash]).isPrefixOf (List.intercalate [slash] segments) &&
        !isAbsolute (List.intercalate [slash] segments))) = true := by
  cases segments with
  | nil => rfl
  | cons name segments =>
      have hName := h name List.mem_cons_self
      have hSplit := splitOn_names h (List.cons_ne_nil _ _)
      generalize List.intercalate [slash] (name :: segments) = rel at hSplit
      have hParent : rel ≠ parent := by
        rintro rfl
        have hNames : [parent] = name :: segments := hSplit
        exact hName.not_parent (List.cons.inj hNames).1.symm
      have hUp : ¬ (parent ++ [slash]) <+: rel := by
        rintro ⟨more, rfl⟩
        rw [List.append_assoc, List.singleton_append, List.splitOn_append_cons_self] at hSplit
        have hNames : parent :: more.splitOn slash = name :: segments := hSplit
        exact hName.not_parent (List.cons.inj hNames).1.symm
      have hAbsolute : isAbsolute rel = false := by
        cases rel with
        | nil => rfl
        | cons unit rel =>
            rw [isAbsolute, List.head?_cons, beq_eq_false_iff_ne]
            intro hSlash
            obtain rfl := Option.some.inj hSlash
            have hNames := List.splitOn_append_cons_self (a := slash) [] rel
            rw [List.nil_append, hSplit] at hNames
            exact hName.nonempty (List.cons.inj hNames).1
      have hNoUp : (parent ++ [slash]).isPrefixOf rel = false := by
        rw [← Bool.not_eq_true, List.isPrefixOf_iff_prefix]
        exact hUp
      rw [bne_iff_ne.mpr hParent, hNoUp, hAbsolute]
      exact Bool.or_true _

theorem within_iff {path : JsString} (dir : RealPath) :
    within path dir.path = true ↔ dir.names <+: names path := by
  have hDir : names dir.path = dir.names := resolveSegments_text dir.valid
  rw [within]
  by_cases hNormal : (normal path && normal dir.path) = true
  · rw [if_pos hNormal]
    rw [Bool.and_eq_true] at hNormal
    have hText := normal_eq_text hNormal.1
    rw [← startsWith_text dir.valid (names_valid path), ← hText, Bool.or_eq_true, beq_iff_eq,
      List.isPrefixOf_iff_prefix]
    rfl
  · rw [if_neg hNormal]
    dsimp only
    constructor
    · intro h
      by_contra hOutside
      rw [← hDir] at hOutside
      obtain ⟨rest, hRel, hRest⟩ := relative_outside hOutside
      rw [hRel] at h
      rcases hRest with rfl | hRest
      · revert h
        decide
      · cases rest with
        | nil => cases hRest
        | cons unit rest =>
            obtain rfl := Option.some.inj hRest
            have hUp : (parent ++ [slash]).isPrefixOf (parent ++ slash :: rest) = true := by
              rw [List.isPrefixOf_iff_prefix]
              exact ⟨rest, by simp⟩
            rw [hUp] at h
            simp at h
    · rintro ⟨rest, hRest⟩
      have hValid : ∀ name ∈ rest, IsName name := by
        intro name hName
        exact names_valid path name (hRest ▸ List.mem_append_right _ hName)
      rw [relative_within (hDir.symm ▸ hRest.symm)]
      exact descends hValid

/-! ## Roots -/

inductive RootKind
  | project | install | top
  deriving DecidableEq

def Roots.root (roots : Roots) : RootKind → Option RealPath
  | .project => some roots.project
  | .install => some roots.install
  | .top => roots.top

/-- Both have a work tree or none has one, and the roots are nested alike. -/
structure SameShape (a b : Roots) : Prop where
  kinds : ∀ kind, (a.root kind).isSome = (b.root kind).isSome
  nested : ∀ outer inner x y x' y' rest, a.root outer = some x → a.root inner = some y →
    b.root outer = some x' → b.root inner = some y' →
    (y.names = x.names ++ rest ↔ y'.names = x'.names ++ rest)

/-- An absolute path within a root of one checkout moves to the same place of the other's root, in
its normal form; every other text stays. -/
inductive Moves (a b : Roots) (s : JsString) : JsString → Prop
  | moves {kind : RootKind} {x y : RealPath} {rest : List JsString}
      (hAbsolute : isAbsolute s = true) (hx : a.root kind = some x) (hy : b.root kind = some y)
      (hNames : names s = x.names ++ rest) : Moves a b s (text (y.names ++ rest))
  | stays (h : ¬ (isAbsolute s = true ∧ ∃ kind x, a.root kind = some x ∧ x.names <+: names s)) :
      Moves a b s s

/-- What becomes of a string. -/
def move (a b : Roots) (s : JsString) : JsString :=
  if isAbsolute s && placed s a then locate (relocate s a) b else s

theorem placed_iff {s : JsString} {roots : Roots} :
    placed s roots = true ↔ ∃ kind x, roots.root kind = some x ∧ x.names <+: names s := by
  have hTop : (roots.top.any fun top => within s top.path) = true ↔
      ∃ top, roots.top = some top ∧ top.names <+: names s := by
    cases roots.top with
    | none => simp
    | some top => simp [within_iff]
  rw [placed, Bool.or_eq_true, Bool.or_eq_true, within_iff, within_iff, hTop]
  constructor
  · rintro ((h | h) | ⟨top, hRoot, h⟩)
    · exact ⟨.project, _, rfl, h⟩
    · exact ⟨.install, _, rfl, h⟩
    · exact ⟨.top, top, hRoot, h⟩
  · rintro ⟨kind, x, hRoot, h⟩
    cases kind with
    | project => exact Or.inl (Or.inl (Option.some.inj hRoot ▸ h))
    | install => exact Or.inl (Or.inr (Option.some.inj hRoot ▸ h))
    | top => exact Or.inr ⟨x, hRoot, h⟩

/-! ## There and back -/

section back

variable {a b : Roots} {s : JsString}

/-- A way down that is joined to another root. -/
theorem join_relative {x y : RealPath} {rest : List JsString}
    (h : names s = x.names ++ rest) : join y.path (relative x.path s) = text (y.names ++ rest) := by
  have hNames : names x.path = x.names := resolveSegments_text x.valid
  have hRest : ∀ name ∈ rest, IsName name := by
    intro name hName
    exact names_valid s name (h ▸ List.mem_append_right _ hName)
  rw [relative_within (hNames.symm ▸ h)]
  exact join_text y.valid hRest

/-- A path is located at the same place of the root that it was found to lie within. -/
theorem locate_relocate (hKinds : ∀ kind, (a.root kind).isSome = (b.root kind).isSome)
    (h : placed s a = true) :
    ∃ kind x y rest, a.root kind = some x ∧ b.root kind = some y ∧ names s = x.names ++ rest ∧
      locate (relocate s a) b = text (y.names ++ rest) := by
  by_cases hProject : within s a.project.path = true
  · obtain ⟨rest, hRest⟩ := (within_iff _).mp hProject
    refine ⟨.project, _, _, rest, rfl, rfl, hRest.symm, ?_⟩
    rw [relocate, if_pos hProject]
    exact join_relative hRest.symm
  by_cases hInstall : within s a.install.path = true
  · obtain ⟨rest, hRest⟩ := (within_iff _).mp hInstall
    refine ⟨.install, _, _, rest, rfl, rfl, hRest.symm, ?_⟩
    rw [relocate, if_neg hProject, if_pos hInstall]
    exact join_relative hRest.symm
  obtain ⟨kind, x, hRoot, hWithin⟩ := placed_iff.mp h
  cases kind with
  | project => exact absurd ((within_iff _).mpr (Option.some.inj hRoot ▸ hWithin)) hProject
  | install => exact absurd ((within_iff _).mpr (Option.some.inj hRoot ▸ hWithin)) hInstall
  | top =>
      have hTop : a.top = some x := hRoot
      obtain ⟨rest, hRest⟩ := hWithin
      obtain ⟨y, hy⟩ : ∃ y, b.top = some y := by
        have hSome := hKinds .top
        rw [hRoot] at hSome
        exact Option.isSome_iff_exists.mp hSome.symm
      refine ⟨.top, x, y, rest, hRoot, hy, hRest.symm, ?_⟩
      rw [relocate, if_neg hProject, if_neg hInstall, hTop]
      dsimp only
      rw [if_pos ((within_iff x).mpr ⟨rest, hRest⟩)]
      have hLocate (way : JsString) : locate (topLetter :: colon :: way) b = join y.path way := by
        simp only [locate]
        rw [hy]
        rfl
      rw [hLocate]
      exact join_relative hRest.symm

theorem move_moves (hShape : SameShape a b) (s : JsString) : Moves a b s (move a b s) := by
  rw [move]
  by_cases h : (isAbsolute s && placed s a) = true
  · rw [if_pos h]
    rw [Bool.and_eq_true] at h
    obtain ⟨kind, x, y, rest, hx, hy, hNames, hLocate⟩ := locate_relocate hShape.kinds h.2
    rw [hLocate]
    exact .moves h.1 hx hy hNames
  · rw [if_neg h]
    refine .stays fun hMoves => h ?_
    rw [Bool.and_eq_true]
    exact ⟨hMoves.1, placed_iff.mpr hMoves.2⟩

/-- Two roots that a path lies within are nested, so it moves to one place. -/
theorem Moves.unique (hShape : SameShape a b) {t t' : JsString} (h : Moves a b s t)
    (h' : Moves a b s t') : t = t' := by
  cases h with
  | @moves kind x y rest hAbsolute hx hy hNames =>
      cases h' with
      | @moves kind' x' y' rest' _ hx' hy' hNames' =>
          have hBoth : x.names ++ rest = x'.names ++ rest' := hNames.symm.trans hNames'
          rcases List.prefix_or_prefix_of_prefix (List.prefix_append x.names rest)
            (hBoth ▸ List.prefix_append x'.names rest') with ⟨more, hMore⟩ | ⟨more, hMore⟩
          · have hInner := (hShape.nested kind kind' x x' y y' more hx hx' hy hy').mp hMore.symm
            rw [← hMore, List.append_assoc] at hBoth
            rw [hInner, List.append_cancel_left hBoth, List.append_assoc]
          · have hInner := (hShape.nested kind' kind x' x y' y more hx' hx hy' hy).mp hMore.symm
            rw [← hMore, List.append_assoc] at hBoth
            rw [hInner, ← List.append_cancel_left hBoth, List.append_assoc]
      | stays hStays =>
          exact absurd ⟨hAbsolute, kind, x, hx, rest, hNames.symm⟩ hStays
  | stays hStays =>
      cases h' with
      | @moves kind' x' y' rest' hAbsolute hx' hy' hNames' =>
          exact absurd ⟨hAbsolute, kind', x', hx', rest', hNames'.symm⟩ hStays
      | stays => rfl

/-- On a string without the mark, both ways together are the move. -/
theorem locateString_relocateString (h : s.head? ≠ some PLACED) :
    locateString b (relocateString a s) = move a b s := by
  rw [relocateString, move]
  split_ifs with hPlaced
  · rw [locateString, List.head?_cons, if_pos rfl]
    rfl
  · rw [locateString, if_neg h]

end back

theorem sameShape_self (roots : Roots) : SameShape roots roots where
  kinds _ := rfl
  nested outer inner x y x' y' rest hx hy hx' hy' := by
    rw [← Option.some.inj (hx.symm.trans hx'), ← Option.some.inj (hy.symm.trans hy')]

/-- Within the same roots a path becomes its normal form at most. -/
theorem move_self (roots : Roots) (s : JsString) :
    move roots roots s = s ∨ isAbsolute s = true ∧ move roots roots s = text (names s) := by
  have hMoves := move_moves (sameShape_self roots) s
  generalize move roots roots s = t at hMoves
  cases hMoves with
  | moves hAbsolute hx hy hNames =>
      rw [← Option.some.inj (hx.symm.trans hy), ← hNames]
      exact Or.inr ⟨hAbsolute, rfl⟩
  | stays => exact Or.inl rfl

/-- The paths of a value move between the roots of two checkouts; its other strings, and the names
of its members, stay. -/
theorem located_relocated {a b : Roots} (hShape : SameShape a b) {value : Json}
    (h : ∀ s ∈ value.strings, s.head? ≠ some PLACED) :
    (∃ moved, (∀ s t, Moves a b s t ↔ t = moved s) ∧
      locateValue (relocateValue value a) b = value.mapStrings moved) ∧
    ∃ kept, (∀ s, kept s = s ∨ isAbsolute s = true ∧ kept s = text (names s)) ∧
      locateValue (relocateValue value a) a = value.mapStrings kept := by
  refine ⟨⟨move a b, ?_, ?_⟩, move a a, move_self a, ?_⟩
  · intro s t
    constructor
    · intro hMoves
      exact hMoves.unique hShape (move_moves hShape s)
    · rintro rfl
      exact move_moves hShape s
  · exact Json.mapStrings_mapStrings value fun s hMem => locateString_relocateString (h s hMem)
  · exact Json.mapStrings_mapStrings value fun s hMem => locateString_relocateString (h s hMem)

/-! ## Two checkouts -/

/-- A checkout in a directory of one letter, which is its only root. -/
def checkout (letter : UInt16) (h : IsName [letter]) : Roots :=
  let real : RealPath := ⟨[[letter]], fun _ hName => List.mem_singleton.mp hName ▸ h⟩
  ⟨real, real, none⟩

def checkoutA : Roots := checkout 97 ⟨by decide, by decide, by decide, by decide⟩

def checkoutB : Roots := checkout 98 ⟨by decide, by decide, by decide, by decide⟩

theorem sameShape_checkouts : SameShape checkoutA checkoutB where
  kinds kind := by cases kind <;> rfl
  nested outer inner x y x' y' rest hx hy hx' hy' := by
    have hNames (kind : RootKind) {z z' : RealPath} (hz : checkoutA.root kind = some z)
        (hz' : checkoutB.root kind = some z') : z.names = [[97]] ∧ z'.names = [[98]] := by
      cases kind with
      | project => cases hz; cases hz'; exact ⟨rfl, rfl⟩
      | install => cases hz; cases hz'; exact ⟨rfl, rfl⟩
      | top => cases hz
    rw [(hNames outer hx hx').1, (hNames outer hx hx').2, (hNames inner hy hy').1,
      (hNames inner hy hy').2]
    cases rest <;> simp

/-- `/a/x` moves to `/b/x`, and `y` stays. -/
theorem located_relocated_checkouts :
    ∃ moved : JsString → JsString, moved [47, 97, 47, 120] = [47, 98, 47, 120] ∧
      moved [121] = [121] ∧
      locateValue (relocateValue (.array [.string [47, 97, 47, 120], .string [121]]) checkoutA)
        checkoutB = Json.mapStrings moved (.array [.string [47, 97, 47, 120], .string [121]]) := by
  have hClean : ∀ s ∈ Json.strings (.array [.string [47, 97, 47, 120], .string [121]]),
      s.head? ≠ some PLACED := by
    intro s hMem
    simp only [Json.strings, Json.elementStrings, List.cons_append, List.nil_append,
      List.mem_cons, List.not_mem_nil, or_false] at hMem
    rcases hMem with rfl | rfl <;> decide
  obtain ⟨⟨moved, hMoved, hValue⟩, -⟩ := located_relocated sameShape_checkouts hClean
  refine ⟨moved, ?_, ?_, hValue⟩
  · have hMoves : Moves checkoutA checkoutB [47, 97, 47, 120] (text [[98], [120]]) :=
      @Moves.moves _ _ _ .project _ _ [[120]] rfl rfl rfl (by decide)
    exact ((hMoved _ _).mp hMoves).symm
  · refine ((hMoved _ _).mp (.stays ?_)).symm
    rintro ⟨hAbsolute, -⟩
    revert hAbsolute
    decide

/-- `/a/./x` is not in its normal form, and moves all the same. -/
theorem unnormalized_moves :
    normal [47, 97, 47, 46, 47, 120] = false ∧
      locateValue (relocateValue (.string [47, 97, 47, 46, 47, 120]) checkoutA) checkoutB =
        .string [47, 98, 47, 120] := by
  have hString : locateString checkoutB (relocateString checkoutA [47, 97, 47, 46, 47, 120]) =
      [47, 98, 47, 120] := by decide +kernel
  refine ⟨by decide, ?_⟩
  rw [relocateValue, locateValue, Json.mapStrings, Json.mapStrings, hString]

end Stim.IndexStore
