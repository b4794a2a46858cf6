import Mathlib.Tactic

/-!
# A small file system

A finite tree of directories and files with the POSIX operations that
lock-like protocols are built from.  The top directory `[]` always exists.  Each
operation is one atomic step and answers an error number when it fails, leaving
the tree alone.  In particular

* `rename` of a directory replaces only a missing or an *empty* directory;
* `rmdir` removes only an empty directory;
* `writeFile` replaces a file's content in place.

Every operation comes with a lemma that says what `get` reads afterwards; the
tree's representation is not used outside this file.
-/

namespace FileTree

/-- The error numbers the operations answer. -/
inductive Errno where
  | ENOENT | EEXIST | ENOTDIR | EISDIR | ENOTEMPTY | EINVAL
  deriving DecidableEq, Repr

/-- What a path names. -/
inductive Node (Content : Type) where
  | file (content : Content)
  | dir
  deriving DecidableEq, Repr

/-- A path, from the top directory down. -/
abbrev Path (Name : Type) := List Name

/-- The entries below the top directory, each with its path. -/
abbrev Tree (Name Content : Type) := List (Path Name × Node Content)

variable {Name Content : Type} [DecidableEq Name]

/-- The entry a path names. -/
def get : Tree Name Content → Path Name → Option (Node Content)
  | [], _ => none
  | (q, n) :: t, p => if p = q then some n else get t p

/-- The tree without the entry a path names. -/
def erase (t : Tree Name Content) (p : Path Name) : Tree Name Content :=
  t.filter fun e => e.1 ≠ p

/-- The tree with one entry set. -/
def put (t : Tree Name Content) (p : Path Name) (n : Node Content) :
    Tree Name Content :=
  (p, n) :: erase t p

/-- Whether nothing lies below a path. -/
def isEmptyDir (t : Tree Name Content) (p : Path Name) : Bool :=
  t.all fun e => decide (p <+: e.1 → e.1 = p)

/-- Re-root what lies at or below `src` at `dst`. -/
def move (src dst : Path Name) : Tree Name Content → Tree Name Content
  | [] => []
  | (q, n) :: t =>
      if q = dst then move src dst t
      else if src <+: q then (dst ++ q.drop src.length, n) :: move src dst t
      else (q, n) :: move src dst t

/-- Why nothing can be created at a path, if its parent does not allow it. -/
def parentError (t : Tree Name Content) (p : Path Name) : Option Errno :=
  if p.dropLast = [] then none
  else match get t p.dropLast with
    | some .dir => none
    | some (.file _) => some .ENOTDIR
    | none => some .ENOENT

/-- Create a directory. -/
def mkdir (t : Tree Name Content) (p : Path Name) : Except Errno (Tree Name Content) :=
  match parentError t p with
  | some e => .error e
  | none => match get t p with
    | some _ => .error .EEXIST
    | none => .ok (put t p .dir)

/-- Create a file or replace its content. -/
def writeFile (t : Tree Name Content) (p : Path Name) (c : Content) :
    Except Errno (Tree Name Content) :=
  match parentError t p with
  | some e => .error e
  | none => match get t p with
    | some .dir => .error .EISDIR
    | _ => .ok (put t p (.file c))

/-- Rename a file over a file, or a directory over a missing or empty one. -/
def rename (t : Tree Name Content) (src dst : Path Name) :
    Except Errno (Tree Name Content) :=
  match get t src with
  | none => .error .ENOENT
  | some (.file c) =>
      match parentError t dst with
      | some e => .error e
      | none => match get t dst with
        | some .dir => .error .EISDIR
        | _ => .ok (put (erase t src) dst (.file c))
  | some .dir =>
      if src <+: dst then .error .EINVAL
      else match parentError t dst with
        | some e => .error e
        | none => match get t dst with
          | some (.file _) => .error .ENOTDIR
          | _ => if isEmptyDir t dst then .ok (move src dst t) else .error .ENOTEMPTY

/-- Remove a file. -/
def unlink (t : Tree Name Content) (p : Path Name) : Except Errno (Tree Name Content) :=
  match get t p with
  | none => .error .ENOENT
  | some .dir => .error .EISDIR
  | some (.file _) => .ok (erase t p)

/-- Remove an empty directory. -/
def rmdir (t : Tree Name Content) (p : Path Name) : Except Errno (Tree Name Content) :=
  match get t p with
  | none => .error .ENOENT
  | some (.file _) => .error .ENOTDIR
  | some .dir => if isEmptyDir t p then .ok (erase t p) else .error .ENOTEMPTY

/-- The names in a directory. -/
def readdir (t : Tree Name Content) (p : Path Name) : Except Errno (List Name) :=
  match get t p with
  | none => .error .ENOENT
  | some (.file _) => .error .ENOTDIR
  | some .dir => .ok (t.filterMap fun e =>
      if e.1.dropLast = p then e.1.getLast? else none)

/-- A file's content. -/
def readFile (t : Tree Name Content) (p : Path Name) : Except Errno Content :=
  match get t p with
  | none => .error .ENOENT
  | some .dir => .error .EISDIR
  | some (.file c) => .ok c

/-! ## What `get` reads afterwards -/

theorem get_erase (t : Tree Name Content) (p q : Path Name) :
    get (erase t p) q = if q = p then none else get t q := by
  induction t with
  | nil => simp [erase, get]
  | cons e t ih =>
      obtain ⟨r, n⟩ := e
      unfold erase at ih ⊢
      by_cases hr : r = p
      · subst hr
        simp only [List.filter_cons, ne_eq, not_true_eq_false, decide_false,
          Bool.false_eq_true, if_false, ih, get]
        by_cases hq : q = r <;> simp [hq]
      · simp only [List.filter_cons, ne_eq, hr, not_false_eq_true, decide_true,
          if_true, get, ih]
        by_cases hq : q = r
        · subst hq
          simp [hr]
        · simp [hq]

theorem get_put (t : Tree Name Content) (p q : Path Name) (n : Node Content) :
    get (put t p n) q = if q = p then some n else get t q := by
  simp only [put, get, get_erase]
  by_cases hq : q = p <;> simp [hq]

theorem get_eq_none_iff (t : Tree Name Content) (p : Path Name) :
    get t p = none ↔ ∀ e ∈ t, e.1 ≠ p := by
  induction t with
  | nil => simp [get]
  | cons e t ih =>
      obtain ⟨q, n⟩ := e
      simp only [get, List.mem_cons, forall_eq_or_imp]
      by_cases hq : p = q
      · simp [hq]
      · simp [hq, ih, Ne.symm hq]

variable {t : Tree Name Content} {p : Path Name}

/-- An empty directory has no entry strictly below it. -/
theorem get_below_of_isEmptyDir (h : isEmptyDir t p = true) {s : Path Name} (hs : s ≠ []) :
    get t (p ++ s) = none := by
  rw [get_eq_none_iff]
  intro e he heq
  have hAll := List.all_eq_true.mp h e he
  simp only [decide_eq_true_eq, heq, List.prefix_append, forall_const] at hAll
  exact hs (by simpa using hAll)

/-- A directory that is not empty has an entry below it. -/
theorem exists_below (h : isEmptyDir t p = false) :
    ∃ a rest n, get t (p ++ a :: rest) = some n := by
  simp only [isEmptyDir, List.all_eq_false, decide_eq_true_eq, Classical.not_imp] at h
  obtain ⟨e, he, ⟨s, hs⟩, hNe⟩ := h
  cases s with
  | nil => simp [← hs] at hNe
  | cons a rest =>
      refine ⟨a, rest, ?_⟩
      rw [hs]
      by_contra hNone
      have : get t e.1 = none := by
        cases hGet : get t e.1 with
        | none => rfl
        | some n => exact absurd ⟨n, hGet⟩ hNone
      exact (get_eq_none_iff t e.1).mp this e he rfl

variable {src dst : Path Name}

theorem get_move (hBelow : ∀ e ∈ t, dst <+: e.1 → e.1 = dst) (hSrc : ¬ src <+: dst)
    (p : Path Name) :
    get (move src dst t) p =
      if dst <+: p then get t (src ++ p.drop dst.length)
      else if src <+: p then none else get t p := by
  have hNeDst : ∀ s, src ++ s ≠ dst := fun s h => hSrc ⟨s, h⟩
  induction t with
  | nil => simp [move, get]
  | cons e t ih =>
      obtain ⟨q, n⟩ := e
      have hTail := ih fun e he => hBelow e (List.mem_cons_of_mem _ he)
      have hq := hBelow (q, n) (List.mem_cons_self ..)
      simp only [move]
      split
      · -- the replaced empty directory itself
        rename_i hqd
        subst hqd
        rw [hTail]
        by_cases hp : q <+: p
        · simp [hp, get, hNeDst]
        · have hpq : p ≠ q := fun h => hp (h ▸ List.prefix_rfl)
          simp [hp, get, hpq]
      · rename_i hqd
        split
        · -- an entry that moves
          rename_i hsq
          obtain ⟨s, rfl⟩ := hsq
          simp only [get, List.drop_left, hTail]
          by_cases hp : dst <+: p
          · obtain ⟨s', rfl⟩ := hp
            by_cases hs : s' = s <;> simp [hs]
          · have hne : p ≠ dst ++ s := fun h => hp ⟨s, h.symm⟩
            by_cases hsp : src <+: p
            · simp [hp, hne, hsp]
            · have hne' : p ≠ src ++ s := fun h => hsp ⟨s, h.symm⟩
              simp [hp, hne, hsp, hne']
        · -- an entry that stays
          rename_i hsq
          have hKeep : ∀ s, src ++ s ≠ q := fun s h => hsq ⟨s, h⟩
          simp only [get, hTail]
          by_cases hp : dst <+: p
          · have hpq : p ≠ q := fun h => hqd (hq (h ▸ hp))
            simp [hp, hpq, hKeep]
          · by_cases hsp : src <+: p
            · have hpq : p ≠ q := fun h => hsq (h ▸ hsp)
              simp [hp, hsp, hpq]
            · simp [hp, hsp]

/-! ## Inversion of the successful operations -/

theorem mkdir_ok {t t' : Tree Name Content} (h : mkdir t p = .ok t') :
    parentError t p = none ∧ get t p = none ∧ t' = put t p .dir := by
  unfold mkdir at h
  split at h
  · cases h
  · rename_i hParent
    split at h
    · cases h
    · rename_i hNone
      cases h
      exact ⟨hParent, hNone, rfl⟩

variable {c : Content}

theorem writeFile_ok {t t' : Tree Name Content} (h : writeFile t p c = .ok t') :
    parentError t p = none ∧ get t p ≠ some .dir ∧ t' = put t p (.file c) := by
  unfold writeFile at h
  split at h
  · cases h
  · rename_i hParent
    split at h
    · cases h
    · rename_i hDir
      cases h
      exact ⟨hParent, hDir, rfl⟩

theorem writeFile_error {e : Errno} (h : writeFile t p c = .error e) :
    parentError t p ≠ none ∨ get t p = some .dir := by
  unfold writeFile at h
  split at h
  · rename_i hParent
    exact Or.inl (by simp [hParent])
  · split at h
    · exact Or.inr ‹_›
    · cases h

theorem unlink_ok {t t' : Tree Name Content} (h : unlink t p = .ok t') :
    (∃ c, get t p = some (.file c)) ∧ t' = erase t p := by
  unfold unlink at h
  split at h
  · cases h
  · cases h
  · rename_i c hFile
    cases h
    exact ⟨⟨c, hFile⟩, rfl⟩

theorem rmdir_ok {t t' : Tree Name Content} (h : rmdir t p = .ok t') :
    get t p = some .dir ∧ isEmptyDir t p = true ∧ t' = erase t p := by
  unfold rmdir at h
  split at h
  · cases h
  · cases h
  · rename_i hDir
    split at h
    · rename_i hEmpty
      cases h
      exact ⟨hDir, hEmpty, rfl⟩
    · cases h

theorem rmdir_error {e : Errno} (h : rmdir t p = .error e) :
    get t p ≠ some .dir ∨ isEmptyDir t p = false := by
  unfold rmdir at h
  split at h
  · exact Or.inl (by simp [*])
  · exact Or.inl (by simp [*])
  · split at h
    · cases h
    · exact Or.inr (Bool.eq_false_of_not_eq_true ‹_›)

theorem unlink_error {e : Errno} (h : unlink t p = .error e) :
    e = .ENOENT ∧ get t p = none ∨ e = .EISDIR ∧ get t p = some .dir := by
  unfold unlink at h
  split at h
  · cases h
    exact Or.inl ⟨rfl, ‹_›⟩
  · cases h
    exact Or.inr ⟨rfl, ‹_›⟩
  · cases h

/-- A successful rename moved a file, or a directory over nothing or an empty
directory. -/
theorem rename_ok {t t' : Tree Name Content} (h : rename t src dst = .ok t') :
    (∃ c, get t src = some (.file c) ∧ parentError t dst = none ∧
        get t dst ≠ some .dir ∧ t' = put (erase t src) dst (.file c)) ∨
      (get t src = some .dir ∧ ¬ src <+: dst ∧ parentError t dst = none ∧
        isEmptyDir t dst = true ∧ t' = move src dst t) := by
  unfold rename at h
  split at h
  · cases h
  · rename_i c hFile
    split at h
    · cases h
    · rename_i hParent
      split at h
      · cases h
      · rename_i hDir
        cases h
        exact Or.inl ⟨c, hFile, hParent, hDir, rfl⟩
  · rename_i hDir
    split at h
    · cases h
    · rename_i hPrefix
      split at h
      · cases h
      · rename_i hParent
        split at h
        · cases h
        · split at h
          · rename_i hEmpty
            cases h
            exact Or.inr ⟨hDir, hPrefix, hParent, hEmpty, rfl⟩
          · cases h

theorem get_rename_dir (hEmpty : isEmptyDir t dst = true) (hSrc : ¬ src <+: dst) (p : Path Name) :
    get (move src dst t) p =
      if dst <+: p then get t (src ++ p.drop dst.length)
      else if src <+: p then none else get t p := by
  refine get_move ?_ hSrc p
  intro e he
  exact of_decide_eq_true (List.all_eq_true.mp hEmpty e he)

theorem readFile_ok : readFile t p = .ok c ↔ get t p = some (.file c) := by
  unfold readFile
  split <;> rename_i h <;> simp [h]

theorem readFile_error_ENOENT : readFile t p = .error .ENOENT ↔ get t p = none := by
  unfold readFile
  split <;> rename_i h <;> simp [h]

theorem unlink_error_ENOENT : unlink t p = .error .ENOENT ↔ get t p = none := by
  unfold unlink
  split <;> rename_i h <;> simp [h]

/-- A directory lists exactly the names below it. -/
theorem mem_readdir {names : List Name} (h : readdir t p = .ok names) (n : Name) :
    n ∈ names ↔ get t (p ++ [n]) ≠ none := by
  unfold readdir at h
  split at h
  · cases h
  · cases h
  · cases h
    rw [ne_eq, get_eq_none_iff]
    simp only [List.mem_filterMap, Option.ite_none_right_eq_some, not_forall,
      not_not]
    constructor
    · rintro ⟨e, he, hDrop, hLast⟩
      refine ⟨e, he, ?_⟩
      have hne : e.1 ≠ [] := by
        intro h0
        simp [h0] at hLast
      rw [← hDrop, ← List.dropLast_append_getLast? n hLast]
      simp
    · rintro ⟨e, he, hEq⟩
      exact ⟨e, he, by simp [hEq], by simp [hEq]⟩

theorem readdir_error_ENOENT : readdir t p = .error .ENOENT ↔ get t p = none := by
  unfold readdir
  split <;> rename_i h <;> simp [h]

/-! ## Every entry lies in a directory -/

/-- The parent of every entry is a directory. -/
def Parented (t : Tree Name Content) : Prop :=
  ∀ p a n, get t (p ++ [a]) = some n → p = [] ∨ get t p = some .dir

theorem parentError_eq_none {a : Name} (h : parentError t (p ++ [a]) = none) :
    p = [] ∨ get t p = some .dir := by
  unfold parentError at h
  rw [List.dropLast_concat] at h
  split at h
  · exact Or.inl ‹_›
  · split at h
    · exact Or.inr ‹_›
    · cases h
    · cases h

theorem parentError_ne_none {a : Name} (h : parentError t (p ++ [a]) ≠ none) :
    get t p ≠ some .dir := by
  intro hDir
  apply h
  unfold parentError
  rw [List.dropLast_concat, hDir]
  split <;> rfl

/-- Only a directory has entries below it. -/
theorem Parented.below (hPar : Parented t) (hp : p ≠ []) (hDir : get t p ≠ some .dir) (a : Name) :
    get t (p ++ [a]) = none := by
  by_contra hSome
  obtain ⟨n, hn⟩ := Option.ne_none_iff_exists'.mp hSome
  rcases hPar p a n hn with hNil | hIs
  · exact hp hNil
  · exact hDir hIs

theorem Parented.put (hPar : Parented t) {n : Node Content} (hParent : parentError t p = none)
    (hDir : get t p ≠ some .dir) : Parented (put t p n) := by
  intro q a n' h
  rw [get_put] at h ⊢
  by_cases hqp : q = p
  · -- nothing lay below `p`, which was no directory
    subst hqp
    split at h
    · rename_i hSelf
      simp at hSelf
    · by_cases hq : q = []
      · exact Or.inl hq
      · rw [hPar.below hq hDir] at h
        cases h
  · simp only [hqp, if_false]
    split at h
    · rename_i hNew
      subst hNew
      exact parentError_eq_none hParent
    · exact hPar q a n' h

theorem Parented.erase (hPar : Parented t) (hBelow : ∀ a, get t (p ++ [a]) = none) :
    Parented (erase t p) := by
  intro q a n h
  rw [get_erase] at h ⊢
  split at h
  · cases h
  · by_cases hqp : q = p
    · subst hqp
      rw [hBelow] at h
      cases h
    · simpa [hqp] using hPar q a n h

theorem mkdir_parented {t t' : Tree Name Content} (hPar : Parented t) (h : mkdir t p = .ok t') :
    Parented t' := by
  obtain ⟨hParent, hNone, rfl⟩ := mkdir_ok h
  exact hPar.put hParent (by simp [hNone])

theorem writeFile_parented {t t' : Tree Name Content} (hPar : Parented t)
    (h : writeFile t p c = .ok t') : Parented t' := by
  obtain ⟨hParent, hDir, rfl⟩ := writeFile_ok h
  exact hPar.put hParent hDir

theorem unlink_parented {t t' : Tree Name Content} (hPar : Parented t) (hp : p ≠ [])
    (h : unlink t p = .ok t') : Parented t' := by
  obtain ⟨⟨c, hFile⟩, rfl⟩ := unlink_ok h
  exact hPar.erase (hPar.below hp (by simp [hFile]))

theorem rmdir_parented {t t' : Tree Name Content} (hPar : Parented t) (h : rmdir t p = .ok t') :
    Parented t' := by
  obtain ⟨-, hEmpty, rfl⟩ := rmdir_ok h
  exact hPar.erase fun a => get_below_of_isEmptyDir hEmpty (List.cons_ne_nil a [])

private theorem parented_of_rename_dir (hPar : Parented t) (hSrc : src ≠ [])
    (hPrefix : ¬ src <+: dst) (hParent : parentError t dst = none)
    (hEmpty : isEmptyDir t dst = true) : Parented (move src dst t) := by
  intro q a n h
  rw [get_rename_dir hEmpty hPrefix] at h ⊢
  by_cases hq : dst <+: q
  · -- below the new place
    obtain ⟨s, rfl⟩ := hq
    have hqa : dst <+: dst ++ s ++ [a] := ⟨s ++ [a], by simp⟩
    rw [if_pos hqa, List.append_assoc, List.drop_left, ← List.append_assoc] at h
    rw [if_pos (List.prefix_append dst s), List.drop_left]
    rcases hPar _ _ _ h with hNil | hIs
    · simp [hSrc] at hNil
    · exact Or.inr hIs
  · rw [if_neg hq]
    by_cases hqa : dst <+: q ++ [a]
    · -- the new place itself
      have hEq : dst = q ++ [a] := by
        rcases List.prefix_concat_iff.mp hqa with hEq | hPre
        · exact hEq
        · exact absurd hPre hq
      rw [hEq] at hParent
      have hNot : ¬ src <+: q := fun hs => hPrefix (hEq ▸ hs.trans (List.prefix_append q [a]))
      rw [if_neg hNot]
      exact parentError_eq_none hParent
    · rw [if_neg hqa] at h
      split at h
      · cases h
      · rename_i hNot
        have hNot' : ¬ src <+: q := fun hs => hNot (hs.trans (List.prefix_append q [a]))
        rw [if_neg hNot']
        exact hPar q a n h

theorem rename_parented {t t' : Tree Name Content} (hPar : Parented t) (hSrc : src ≠ [])
    (h : rename t src dst = .ok t') : Parented t' := by
  rcases rename_ok h with ⟨c, hFile, hParent, hDir, rfl⟩ | ⟨-, hPrefix, hParent, hEmpty, rfl⟩
  · have hErase : Parented (erase t src) := hPar.erase (hPar.below hSrc (by simp [hFile]))
    refine hErase.put ?_ ?_
    · -- a file is nobody's parent
      have hNe : dst.dropLast = src → dst.dropLast = [] := by
        intro hEq
        by_contra hNil
        simp [parentError, hEq, hFile] at hParent
        exact hNil (hEq.trans hParent)
      unfold parentError at hParent ⊢
      rw [get_erase]
      by_cases hNil : dst.dropLast = []
      · simp [hNil]
      · have hNe' : dst.dropLast ≠ src := fun hEq => hNil (hNe hEq)
        simpa [hNil, hNe'] using hParent
    · rw [get_erase]
      split
      · simp
      · exact hDir
  · exact parented_of_rename_dir hPar hSrc hPrefix hParent hEmpty

end FileTree
