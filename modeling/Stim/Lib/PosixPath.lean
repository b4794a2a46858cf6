import Mathlib.Data.List.TakeWhile
import Stim.Lib.JsString

/-!
# Posix paths

Paths as texts, which are normalised and joined, and located relative to one another.  A path that
begins with a slash resolves to the names of its normal form; one path lies within another when its
names begin with the other's.
-/

namespace Stim.PosixPath

abbrev slash : UInt16 := 47

/-- `.` -/
abbrev here : JsString := [46]

/-- `..` -/
abbrev parent : JsString := [46, 46]

def isAbsolute (path : JsString) : Bool := path.head? == some slash

/-- The segments that are kept, the last of which comes first, without the last one. -/
def goUp (above : Bool) : List JsString → List JsString
  | [] => if above then [parent] else []
  | last :: rest => if last = parent then parent :: last :: rest else rest

/-- A segment behind the ones that are kept. -/
def push (above : Bool) (kept : List JsString) (segment : JsString) : List JsString :=
  if segment = [] ∨ segment = here then kept
  else if segment = parent then goUp above kept
  else segment :: kept

/-- The segments that are left of a path, above which it may go or not. -/
def resolveSegments (above : Bool) (path : JsString) : List JsString :=
  ((path.splitOn slash).foldl (push above) []).reverse

/-- The names of an absolute path. -/
abbrev names (path : JsString) : List JsString := resolveSegments false path

def normalize (path : JsString) : JsString :=
  let absolute := isAbsolute path
  let trailing := path.getLast? == some slash
  let segments := resolveSegments (!absolute) path
  if path = [] then here
  else if segments = [] then
    if absolute then [slash] else if trailing then here ++ [slash] else here
  else
    let body := List.intercalate [slash] segments ++ if trailing then [slash] else []
    if absolute then slash :: body else body

def join (path rest : JsString) : JsString :=
  if path = [] then normalize rest
  else if rest = [] then normalize path
  else normalize (path ++ slash :: rest)

/-- What lies before the last slash that a name follows. -/
def dirname (path : JsString) : JsString :=
  let front := ((path.reverse.dropWhile (· == slash)).dropWhile (· != slash)).reverse
  if front.length ≤ 1 then if isAbsolute path then [slash] else here
  else if isAbsolute path ∧ front.length = 2 then [slash, slash]
  else front.dropLast

/-- How many elements two lists begin with alike. -/
def common {α : Type} [DecidableEq α] : List α → List α → Nat
  | a :: x, b :: y => if a = b then common x y + 1 else 0
  | [], _ => 0
  | _ :: _, [] => 0

/-- The way from one absolute path to another. -/
def relative (base path : JsString) : JsString :=
  let shared := common (names base) (names path)
  List.intercalate [slash]
    (List.replicate ((names base).length - shared) parent ++ (names path).drop shared)

/-- A segment that stays. -/
structure IsName (segment : JsString) : Prop where
  nonempty : segment ≠ []
  not_here : segment ≠ here
  not_parent : segment ≠ parent
  no_slash : slash ∉ segment

instance (segment : JsString) : Decidable (IsName segment) :=
  decidable_of_iff (segment ≠ [] ∧ segment ≠ here ∧ segment ≠ parent ∧ slash ∉ segment)
    ⟨fun h => ⟨h.1, h.2.1, h.2.2.1, h.2.2.2⟩,
      fun h => ⟨h.nonempty, h.not_here, h.not_parent, h.no_slash⟩⟩

/-- The normal form of an absolute path. -/
def text (segments : List JsString) : JsString := slash :: List.intercalate [slash] segments

/-! ## Resolving -/

variable {above : Bool}

theorem push_name {kept : List JsString} {name : JsString} (h : IsName name) :
    push above kept name = name :: kept := by
  rw [push, if_neg (not_or.mpr ⟨h.nonempty, h.not_here⟩), if_neg h.not_parent]

theorem push_empty (above : Bool) (kept : List JsString) : push above kept [] = kept :=
  if_pos (Or.inl rfl)

variable {segments : List JsString}

theorem foldl_names (h : ∀ name ∈ segments, IsName name) (kept : List JsString) :
    segments.foldl (push above) kept = segments.reverse ++ kept := by
  induction segments generalizing kept with
  | nil => rfl
  | cons name segments ih =>
      rw [List.forall_mem_cons] at h
      rw [List.foldl_cons, push_name h.1, ih h.2, List.reverse_cons, List.append_assoc]
      rfl

theorem splitOn_names (h : ∀ name ∈ segments, IsName name) (hSegments : segments ≠ []) :
    (List.intercalate [slash] segments).splitOn slash = segments :=
  List.splitOn_intercalate slash (fun name hName => (h name hName).no_slash) hSegments

/-- The names of a relative text behind some kept ones. -/
theorem foldl_intercalate (h : ∀ name ∈ segments, IsName name) (kept : List JsString) :
    ((List.intercalate [slash] segments).splitOn slash).foldl (push above) kept =
      segments.reverse ++ kept := by
  cases segments with
  | nil => exact push_empty above kept
  | cons name segments => rw [splitOn_names h (List.cons_ne_nil _ _), foldl_names h]

theorem resolveSegments_slash (above : Bool) (front back : JsString) :
    resolveSegments above (front ++ slash :: back) =
      ((back.splitOn slash).foldl (push above)
        ((front.splitOn slash).foldl (push above) [])).reverse := by
  rw [resolveSegments, List.splitOn_append_cons_self, List.foldl_append]

theorem resolveSegments_text (h : ∀ name ∈ segments, IsName name) :
    resolveSegments above (text segments) = segments := by
  have hSplit := resolveSegments_slash above [] (List.intercalate [slash] segments)
  rw [List.nil_append] at hSplit
  rw [text, hSplit, foldl_intercalate h]
  simp [push_empty]

theorem not_mem_splitOn (path : JsString) : ∀ segment ∈ path.splitOn slash, slash ∉ segment := by
  induction path with
  | nil => simp
  | cons unit path ih =>
      rw [List.splitOn_cons_eq_if_modifyHead]
      split_ifs with hUnit
      · intro segment hSegment
        rcases List.mem_cons.mp hSegment with rfl | hSegment
        · exact List.not_mem_nil
        · exact ih segment hSegment
      · cases hSplit : path.splitOn slash with
        | nil => exact absurd hSplit (List.splitOn_ne_nil _ _)
        | cons first rest =>
            rw [hSplit, List.forall_mem_cons] at ih
            rw [List.modifyHead_cons, List.forall_mem_cons]
            refine ⟨?_, ih.2⟩
            rw [List.mem_cons, not_or]
            refine ⟨fun hEqual => hUnit ?_, ih.1⟩
            rw [hEqual]
            exact beq_self_eq_true unit

theorem push_valid {kept : List JsString} {segment : JsString} (h : ∀ name ∈ kept, IsName name)
    (hSegment : slash ∉ segment) : ∀ name ∈ push false kept segment, IsName name := by
  unfold push
  split_ifs with hEmpty hParent
  · exact h
  · cases kept with
    | nil => exact nofun
    | cons last rest =>
        rw [List.forall_mem_cons] at h
        rw [goUp, if_neg h.1.not_parent]
        exact h.2
  · rw [not_or] at hEmpty
    exact List.forall_mem_cons.mpr ⟨⟨hEmpty.1, hEmpty.2, hParent, hSegment⟩, h⟩

theorem foldl_valid {segments kept : List JsString} (h : ∀ name ∈ kept, IsName name)
    (hSegments : ∀ segment ∈ segments, slash ∉ segment) :
    ∀ name ∈ segments.foldl (push false) kept, IsName name := by
  induction segments generalizing kept with
  | nil => exact h
  | cons segment segments ih =>
      rw [List.forall_mem_cons] at hSegments
      exact ih (push_valid h hSegments.1) hSegments.2

/-- What is left of an absolute path are names. -/
theorem names_valid (path : JsString) : ∀ name ∈ names path, IsName name := by
  have hKept : ∀ name ∈ ([] : List JsString), IsName name := nofun
  intro name hName
  exact foldl_valid hKept (not_mem_splitOn path) name (List.mem_reverse.mp hName)

theorem text_injective {x y : List JsString} (hx : ∀ name ∈ x, IsName name)
    (hy : ∀ name ∈ y, IsName name) (h : text x = text y) : x = y := by
  have hNames := congrArg (resolveSegments false) h
  rwa [resolveSegments_text hx, resolveSegments_text hy] at hNames

/-! ## Relative paths -/

theorem common_append {α : Type} [DecidableEq α] (x rest : List α) :
    common x (x ++ rest) = x.length := by
  induction x with
  | nil => cases rest <;> rfl
  | cons a x ih => rw [List.cons_append, common, if_pos rfl, ih, List.length_cons]

theorem common_le {α : Type} [DecidableEq α] (x y : List α) : common x y ≤ x.length := by
  induction x generalizing y with
  | nil => cases y <;> exact Nat.le_refl _
  | cons a x ih =>
      cases y with
      | nil => exact Nat.zero_le _
      | cons b y =>
          rw [common]
          split_ifs
          · exact Nat.succ_le_succ (ih y)
          · exact Nat.zero_le _

theorem common_eq_length {α : Type} [DecidableEq α] {x y : List α} (h : common x y = x.length) :
    x <+: y := by
  induction x generalizing y with
  | nil => exact List.nil_prefix
  | cons a x ih =>
      cases y with
      | nil => cases h
      | cons b y =>
          rw [common] at h
          split_ifs at h with hEqual
          exact List.cons_prefix_cons.mpr ⟨hEqual, ih (Nat.succ.inj h)⟩

/-- The way down from a path that another lies within. -/
theorem relative_within {base path : JsString} {rest : List JsString}
    (h : names path = names base ++ rest) : relative base path = List.intercalate [slash] rest := by
  rw [relative, h, common_append, Nat.sub_self, List.replicate_zero, List.nil_append, List.drop_left]

/-- A way that first goes up. -/
theorem relative_outside {base path : JsString} (h : ¬ names base <+: names path) :
    ∃ rest, relative base path = parent ++ rest ∧ (rest = [] ∨ rest.head? = some slash) := by
  have hLess : common (names base) (names path) < (names base).length := by
    have hLe := common_le (names base) (names path)
    rcases Nat.lt_or_eq_of_le hLe with hLess | hEqual
    · exact hLess
    · exact absurd (common_eq_length hEqual) h
  obtain ⟨count, hCount⟩ : ∃ count,
      (names base).length - common (names base) (names path) = count + 1 :=
    ⟨_, (Nat.succ_pred_eq_of_pos (by omega)).symm⟩
  rw [relative, hCount, List.replicate_succ, List.cons_append]
  cases hRest : List.replicate count parent ++
      (names path).drop (common (names base) (names path)) with
  | nil => exact ⟨[], by rw [List.intercalate_singleton, List.append_nil], Or.inl rfl⟩
  | cons segment more =>
      refine ⟨slash :: List.intercalate [slash] (segment :: more), ?_, Or.inr rfl⟩
      rw [List.intercalate_cons_cons, List.append_assoc]
      rfl

/-! ## Joining -/

theorem text_ne_nil (segments : List JsString) : text segments ≠ [] := List.cons_ne_nil _ _

/-- Names end with what is no slash. -/
theorem ends_intercalate (h : ∀ name ∈ segments, IsName name) (hSegments : segments ≠ []) :
    ∃ last, (List.intercalate [slash] segments).getLast? = some last ∧ last ≠ slash := by
  induction segments with
  | nil => exact absurd rfl hSegments
  | cons name segments ih =>
      rw [List.forall_mem_cons] at h
      cases segments with
      | nil =>
          rw [List.intercalate_singleton]
          refine ⟨name.getLast h.1.nonempty, List.getLast?_eq_some_getLast _, ?_⟩
          intro hSlash
          exact h.1.no_slash (hSlash ▸ List.getLast_mem h.1.nonempty)
      | cons next more =>
          obtain ⟨last, hLast, hSlash⟩ := ih h.2 (List.cons_ne_nil _ _)
          refine ⟨last, ?_, hSlash⟩
          rw [List.intercalate_cons_cons, List.getLast?_append, hLast]
          rfl

/-- An absolute path that ends with no slash, or has no names, becomes its normal form. -/
theorem normalize_absolute {path : JsString} (h : isAbsolute path = true)
    (hEnds : names path = [] ∨ path.getLast? ≠ some slash) : normalize path = text (names path) := by
  have hPath : path ≠ [] := by
    rintro rfl
    cases h
  rw [normalize]
  dsimp only
  rw [if_neg hPath, h, Bool.not_true]
  by_cases hNames : names path = []
  · rw [if_pos hNames, if_pos rfl, hNames]
    rfl
  · rcases hEnds with hEmpty | hLast
    · exact absurd hEmpty hNames
    · have hOpen : (path.getLast? == some slash) = false := beq_eq_false_iff_ne.mpr hLast
      rw [if_neg hNames, if_pos rfl, hOpen, if_neg (by decide), List.append_nil]
      rfl

/-- Names are joined to names. -/
theorem join_text {root rest : List JsString} (hRoot : ∀ name ∈ root, IsName name)
    (hRest : ∀ name ∈ rest, IsName name) :
    join (text root) (List.intercalate [slash] rest) = text (root ++ rest) := by
  rw [join, if_neg (text_ne_nil root)]
  cases rest with
  | nil =>
      have hNames : names (text root) = root := resolveSegments_text hRoot
      rw [List.intercalate_nil, if_pos rfl, List.append_nil]
      rw [normalize_absolute rfl, hNames]
      rw [hNames]
      by_cases hEmpty : root = []
      · exact Or.inl hEmpty
      · obtain ⟨last, hLast, hSlash⟩ := ends_intercalate hRoot hEmpty
        refine Or.inr ?_
        rw [text, List.getLast?_cons, hLast]
        exact fun hEqual => hSlash (Option.some.inj hEqual)
  | cons name rest =>
      have hNames : names (text root ++ slash :: List.intercalate [slash] (name :: rest)) =
          root ++ name :: rest := by
        have hFront : ((text root).splitOn slash).foldl (push false) [] = root.reverse := by
          rw [← List.reverse_reverse (List.foldl _ _ _)]
          exact congrArg List.reverse (resolveSegments_text hRoot)
        rw [names, resolveSegments_slash, hFront, foldl_intercalate hRest, List.reverse_append,
          List.reverse_reverse, List.reverse_reverse]
      obtain ⟨last, hLast, hSlash⟩ := ends_intercalate hRest (List.cons_ne_nil _ _)
      have hNonempty : List.intercalate [slash] (name :: rest) ≠ [] := by
        intro hEmpty
        rw [hEmpty] at hLast
        cases hLast
      rw [if_neg hNonempty, normalize_absolute rfl, hNames]
      refine Or.inr ?_
      rw [List.getLast?_append, List.getLast?_cons, hLast]
      exact fun hEqual => hSlash (Option.some.inj hEqual)

/-! ## Parents -/

/-- Names that are divided by slashes begin with what is no slash. -/
theorem isAbsolute_intercalate (h : ∀ segment ∈ segments, segment ≠ [] ∧ slash ∉ segment) :
    isAbsolute (List.intercalate [slash] segments) = false := by
  cases segments with
  | nil => rfl
  | cons segment segments =>
      obtain ⟨hne, hslash⟩ := h segment List.mem_cons_self
      cases segment with
      | nil => exact absurd rfl hne
      | cons unit segment =>
          have hunit : unit ≠ slash := fun heq => hslash (heq ▸ List.mem_cons_self)
          cases segments with
          | nil => simpa [isAbsolute] using hunit
          | cons next segments => simpa [isAbsolute, List.intercalate_cons_cons] using hunit

theorem intercalate_ne_nil (hsegments : segments ≠ []) (h : ∀ segment ∈ segments, segment ≠ []) :
    List.intercalate [slash] segments ≠ [] := by
  cases segments with
  | nil => exact absurd rfl hsegments
  | cons segment segments =>
      have hne := h segment List.mem_cons_self
      cases segments with
      | nil => simpa using hne
      | cons next segments => simp [List.intercalate_cons_cons, hne]

theorem intercalate_concat (h : segments ≠ []) (last : JsString) :
    List.intercalate [slash] (segments ++ [last]) =
      List.intercalate [slash] segments ++ slash :: last := by
  induction segments with
  | nil => exact absurd rfl h
  | cons segment segments ih =>
      cases segments with
      | nil => simp [List.intercalate_cons_cons]
      | cons next segments =>
          have hrest := ih (List.cons_ne_nil _ _)
          rw [List.cons_append, List.cons_append, List.intercalate_cons_cons,
            List.intercalate_cons_cons, ← List.cons_append, hrest]
          simp only [List.append_assoc]

/-- What is cut off is the last name and the slash before it. -/
theorem dirname_concat {last : JsString}
    (h : ∀ segment ∈ segments, segment ≠ [] ∧ slash ∉ segment) (hlast : last ≠ [] ∧ slash ∉ last) :
    dirname (List.intercalate [slash] (segments ++ [last])) =
      if segments = [] then here else List.intercalate [slash] segments := by
  have hends : last.reverse.dropWhile (· == slash) = last.reverse := by
    cases hrev : last.reverse with
    | nil => rfl
    | cons unit units =>
        have hmem : unit ∈ last := List.mem_reverse.mp (hrev ▸ List.mem_cons_self)
        have hunit : unit ≠ slash := fun heq => hlast.2 (heq ▸ hmem)
        rw [List.dropWhile_cons_of_neg (by simpa using hunit)]
  have hall : ∀ unit ∈ last.reverse, (unit != slash) = true := by
    intro unit hunit
    rw [List.mem_reverse] at hunit
    exact bne_iff_ne.mpr fun heq => hlast.2 (heq ▸ hunit)
  by_cases hsegments : segments = []
  · subst hsegments
    have habsolute : isAbsolute last = false := by
      have hlone : isAbsolute (List.intercalate [slash] [last]) = false :=
        isAbsolute_intercalate fun s hs => by rwa [List.mem_singleton.mp hs]
      simpa using hlone
    rw [List.nil_append, List.intercalate_singleton, if_pos rfl, dirname]
    simp only [hends]
    rw [List.dropWhile_eq_nil_iff.mpr hall, List.reverse_nil, List.length_nil,
      if_pos (Nat.zero_le 1), habsolute]
    rfl
  · rw [intercalate_concat hsegments, if_neg hsegments]
    have habsolute : ∀ rest, isAbsolute (List.intercalate [slash] segments ++ rest) = false := by
      intro rest
      have hfront := isAbsolute_intercalate h
      cases hbody : List.intercalate [slash] segments with
      | nil => exact absurd hbody (intercalate_ne_nil hsegments fun s hs => (h s hs).1)
      | cons unit units =>
          rw [hbody] at hfront
          exact hfront
    have hdrop : ((List.intercalate [slash] segments ++ slash :: last).reverse.dropWhile
        (· == slash)).dropWhile (· != slash) =
          slash :: (List.intercalate [slash] segments).reverse := by
      have hne : last.reverse ≠ [] := fun hnil => hlast.1 (List.reverse_eq_nil_iff.mp hnil)
      have hsplit : (List.intercalate [slash] segments ++ slash :: last).reverse =
          last.reverse ++ slash :: (List.intercalate [slash] segments).reverse := by simp
      rw [hsplit, List.dropWhile_append, hends,
        if_neg (by simpa using hlast.1), List.dropWhile_append_of_pos hall,
        List.dropWhile_cons_of_neg (by simp)]
    have hlength : 0 < (List.intercalate [slash] segments).length :=
      List.length_pos_of_ne_nil (intercalate_ne_nil hsegments fun s hs => (h s hs).1)
    rw [dirname]
    simp only [hdrop, List.reverse_cons, List.reverse_reverse, List.length_append,
      List.length_singleton]
    rw [if_neg (by omega), if_neg (by rw [habsolute]; simp), List.dropLast_concat]

end Stim.PosixPath
