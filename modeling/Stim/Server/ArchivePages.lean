import Mathlib.Algebra.GroupWithZero.Nat
import Mathlib.Data.List.Lex
import Stim.Lib.CursorPages

/-!
# Paging through the archives

`archiveCursor`, `lastCursor` and `listArchived` of `packages/server/src/handlers/status.ts`, with
`archivedUsage` of `packages/core/state/archive.ts`: a page of the archives that a status payload
holds, and the cursor of the page after it.

`localeCompare` is a parameter: a consistent comparison of strings.  `Date.parse` is another.  The
fields of an archive that the handler only passes on are left out, and so are the failures of
`statusRead`.
-/

namespace Stim.Server.ArchivePages

def ARCHIVED_PAGE_LIMIT : Int := 50

structure ArchivedBytes where
  logs : Nat
  recordings : Nat
  agentActions : Nat
  record : Nat
  total : Nat
  deriving DecidableEq, Repr

structure ArchivedWorkspace where
  id : String
  removedAt : String
  bytes : ArchivedBytes
  deriving DecidableEq, Repr

structure ArchivedUsage where
  count : Nat
  bytes : Nat
  logs : Nat
  recordings : Nat
  agentActions : Nat
  record : Nat
  deriving DecidableEq, Repr

structure StatusPayload where
  archived : Option (List ArchivedWorkspace)
  archivedUsage : Option ArchivedUsage

structure ArchivedListResult where
  archived : List ArchivedWorkspace
  usage : ArchivedUsage
  next : Option String

/-- A string's UTF-16 code units, by which `<` compares. -/
def codeUnits (text : String) : List Nat :=
  text.toList.flatMap fun c =>
    if c.toNat < 0x10000 then [c.toNat]
    else [0xD800 + (c.toNat - 0x10000) / 0x400, 0xDC00 + (c.toNat - 0x10000) % 0x400]

/-- What is relied on of `localeCompare`: it is a consistent comparison. -/
structure Collation where
  compare : String → String → Int
  sign : ∀ a b, compare a b < 0 ↔ 0 < compare b a
  trans : ∀ a b c, compare a b ≤ 0 → compare b c ≤ 0 → compare a c ≤ 0

def archiveCursor (archive : ArchivedWorkspace) : String := archive.removedAt ++ "|" ++ archive.id

def lastCursor (page : List ArchivedWorkspace) : Option String := page.getLast?.map archiveCursor

def archivedUsage (archives : List ArchivedWorkspace) : ArchivedUsage where
  count := archives.length
  bytes := (archives.map (·.bytes.total)).sum
  logs := (archives.map (·.bytes.logs)).sum
  recordings := (archives.map (·.bytes.recordings)).sum
  agentActions := (archives.map (·.bytes.agentActions)).sum
  record := (archives.map (·.bytes.record)).sum

/-- The archives by descending cursor; `toSorted` is stable. -/
def newest (locale : Collation) (archives : List ArchivedWorkspace) : List ArchivedWorkspace :=
  archives.insertionSort fun a b => locale.compare (archiveCursor b) (archiveCursor a) ≤ 0

def pageLimit (limit : Option Rat) : Nat :=
  (max 1 (min ARCHIVED_PAGE_LIMIT (limit.getD ARCHIVED_PAGE_LIMIT).floor)).toNat

/-- Where the page after a cursor starts; `none` is `-1`. -/
def resumeAt (newest : List ArchivedWorkspace) : Option String → Option Nat
  | none => some 0
  | some before => newest.findIdx? fun archive => codeUnits (archiveCursor archive) < codeUnits before

def listArchived (locale : Collation) (before : Option String) (limit : Option Rat)
    (payload : StatusPayload) : ArchivedListResult :=
  let limit := pageLimit limit
  let archives := payload.archived.getD []
  let newest := newest locale archives
  let resume := resumeAt newest before
  let page := resume.elim [] fun first => (newest.drop first).take limit
  let more := resume.any fun first => first + limit < newest.length
  { archived := page
    usage := payload.archivedUsage.getD (archivedUsage archives)
    next := if more then lastCursor page else none }

/-- The pages from a cursor on, each asked for with the `next` of the page before it, up to one
whose `next` is null. -/
inductive Paged (locale : Collation) (limit : Option Rat) (payload : StatusPayload) :
    Option String → List (List ArchivedWorkspace) → Prop where
  | last {before : Option String} (h : (listArchived locale before limit payload).next = none) :
      Paged locale limit payload before [(listArchived locale before limit payload).archived]
  | next {before : Option String} {following : String} {pages : List (List ArchivedWorkspace)}
      (h : (listArchived locale before limit payload).next = some following)
      (hrest : Paged locale limit payload (some following) pages) :
      Paged locale limit payload before
        ((listArchived locale before limit payload).archived :: pages)

/-! ## The two orders -/

section

variable (locale : Collation) (parse : String → Int)

/-- Following the cursors from the first page on ends, and shows every archive once, newest removal
first. -/
def VisitsEachOnce (payload : StatusPayload) (limit : Option Rat) : Prop :=
  ∃ pages, Paged locale limit payload none pages ∧
    pages.flatten.Perm (payload.archived.getD []) ∧
    pages.flatten.Pairwise fun a b => parse b.removedAt ≤ parse a.removedAt

/-- The cursor of `a` is above that of `b`, and `b` was not removed after `a`. -/
def Above (a b : ArchivedWorkspace) : Prop :=
  codeUnits (archiveCursor b) < codeUnits (archiveCursor a) ∧
    parse b.removedAt ≤ parse a.removedAt

instance (a b : ArchivedWorkspace) : Decidable (Above parse a b) :=
  inferInstanceAs (Decidable (_ ∧ _))

/-- Of any two archives, the one that `localeCompare` puts first (the earlier one, if it calls them
equal) is above the other. -/
def OrdersAgree (archives : List ArchivedWorkspace) : Prop :=
  archives.Pairwise fun a b =>
    if locale.compare (archiveCursor b) (archiveCursor a) ≤ 0 then Above parse a b
    else Above parse b a

instance (archives : List ArchivedWorkspace) : Decidable (OrdersAgree locale parse archives) :=
  inferInstanceAs (Decidable (List.Pairwise _ _))

end

section Sorted

variable {α : Type} {le rel : α → α → Prop} [DecidableRel le]

theorem pairwise_orderedInsert_iff (htrans : ∀ a b c, le a b → le b c → le a c) (a : α)
    {sorted : List α} (hsorted : sorted.Pairwise le) :
    (sorted.orderedInsert le a).Pairwise rel ↔
      (∀ b ∈ sorted, if le a b then rel a b else rel b a) ∧ sorted.Pairwise rel := by
  induction sorted with
  | nil => simp
  | cons first rest ih =>
      obtain ⟨hfirst, hrest⟩ := List.pairwise_cons.mp hsorted
      rw [List.orderedInsert_cons]
      by_cases hle : le a first
      · have hall : ∀ b ∈ first :: rest, le a b := by
          intro b hb
          rcases List.mem_cons.mp hb with rfl | hb
          · exact hle
          · exact htrans _ _ _ hle (hfirst b hb)
        rw [if_pos hle, List.pairwise_cons]
        refine and_congr_left fun _ => forall₂_congr fun b hb => ?_
        rw [if_pos (hall b hb)]
      · have hmem : (∀ b ∈ rest.orderedInsert le a, rel first b) ↔
            rel first a ∧ ∀ b ∈ rest, rel first b := by
          simp only [List.mem_orderedInsert, forall_eq_or_imp]
        rw [if_neg hle, List.pairwise_cons, List.pairwise_cons, hmem, ih hrest,
          List.forall_mem_cons, if_neg hle]
        tauto

/-- A relation holds along a sorted list if it holds of any two items in the order that the sort
puts them in. -/
theorem pairwise_insertionSort_iff (htotal : ∀ a b, le a b ∨ le b a)
    (htrans : ∀ a b c, le a b → le b c → le a c) (list : List α) :
    (list.insertionSort le).Pairwise rel ↔
      list.Pairwise fun a b => if le a b then rel a b else rel b a := by
  have : Std.Total le := ⟨htotal⟩
  have : IsTrans α le := ⟨htrans⟩
  induction list with
  | nil => simp
  | cons a list ih =>
      rw [List.insertionSort_cons,
        pairwise_orderedInsert_iff htrans a (List.pairwise_insertionSort le list),
        List.pairwise_cons]
      exact and_congr (by simp only [List.mem_insertionSort]) ih

end Sorted

theorem Collation.total (locale : Collation) (a b : String) :
    locale.compare a b ≤ 0 ∨ locale.compare b a ≤ 0 := by
  have := locale.sign b a
  omega

/-! ## The pages -/

section

variable (locale : Collation) (parse : String → Int)

def cursorKey (archive : ArchivedWorkspace) : List Nat := codeUnits (archiveCursor archive)

/-- The handler's page is a page of the archives by the code units of their cursors. -/
theorem page_listArchived (before : Option String) (limit : Option Rat) (payload : StatusPayload) :
    CursorPages.page cursorKey (newest locale (payload.archived.getD [])) (pageLimit limit)
        (before.map codeUnits) =
      ((listArchived locale before limit payload).archived,
        (listArchived locale before limit payload).next.map codeUnits) := by
  have hlast : ∀ items : List ArchivedWorkspace,
      items.getLast?.map cursorKey = (lastCursor items).map codeUnits := by
    intro items
    rw [lastCursor, Option.map_map]
    rfl
  have hstart : CursorPages.start cursorKey (newest locale (payload.archived.getD []))
      (before.map codeUnits) = resumeAt (newest locale (payload.archived.getD [])) before := by
    cases before with
    | none => rfl
    | some before =>
        refine congrFun (congrArg List.findIdx? (funext fun archive => ?_)) _
        exact decide_eq_decide.mpr Iff.rfl
  simp only [CursorPages.page, hstart, listArchived]
  cases resumeAt (newest locale (payload.archived.getD [])) before with
  | none => rfl
  | some first =>
      simp only [Option.elim_some, Option.any_some, decide_eq_true_eq, hlast]
      split <;> rfl

variable {locale} {limit : Option Rat} {payload : StatusPayload} {before : Option String}
  {pages : List (List ArchivedWorkspace)}

theorem cursorPaged_of_paged (h : Paged locale limit payload before pages) :
    CursorPages.Paged cursorKey (newest locale (payload.archived.getD [])) (pageLimit limit)
      (before.map codeUnits) pages := by
  induction h with
  | @last before hnone =>
      have hpage := page_listArchived locale before limit payload
      have hlast := CursorPages.Paged.last (by rw [hpage, hnone]; rfl)
      rwa [hpage] at hlast
  | @next before following pages hnext hrest ih =>
      have hpage := page_listArchived locale before limit payload
      have hstep := CursorPages.Paged.next (by rw [hpage, hnext]; rfl) ih
      rwa [hpage] at hstep

theorem paged_of_cursorPaged {cursor : Option (List Nat)}
    (h : CursorPages.Paged cursorKey (newest locale (payload.archived.getD [])) (pageLimit limit)
      cursor pages) (hcursor : cursor = before.map codeUnits) :
    Paged locale limit payload before pages := by
  induction h generalizing before with
  | @last cursor hnone =>
      subst hcursor
      rw [page_listArchived] at hnone ⊢
      exact .last (Option.map_eq_none_iff.mp hnone)
  | @next cursor following pages hnext hrest ih =>
      subst hcursor
      rw [page_listArchived] at hnext ⊢
      obtain ⟨cursor, hcursor, hunits⟩ := Option.map_eq_some_iff.mp hnext
      exact .next hcursor (ih (congrArg some hunits.symm))

theorem pageLimit_pos (limit : Option Rat) : 0 < pageLimit limit := by
  unfold pageLimit
  omega

theorem perm_newest (archives : List ArchivedWorkspace) : (newest locale archives).Perm archives :=
  List.perm_insertionSort _ archives

/-- The archives in the order of `localeCompare` go down by cursor and by time if and only if the
orders agree. -/
theorem pairwise_newest_iff (archives : List ArchivedWorkspace) :
    (newest locale archives).Pairwise (Above parse) ↔ OrdersAgree locale parse archives :=
  pairwise_insertionSort_iff (fun a b => locale.total (archiveCursor b) (archiveCursor a))
    (fun _ _ _ hab hbc => locale.trans _ _ _ hbc hab) archives

/-- Pages of one archive show whether the orders agree. -/
theorem ordersAgree_of_visits (hlimit : pageLimit limit = 1)
    (h : VisitsEachOnce locale parse payload limit) :
    OrdersAgree locale parse (payload.archived.getD []) := by
  obtain ⟨pages, hpaged, hperm, htimes⟩ := h
  have hpaged := cursorPaged_of_paged hpaged
  rw [hlimit] at hpaged
  obtain ⟨hdesc, hflat⟩ := CursorPages.descending_of_paged_one hpaged
    (hperm.trans (perm_newest _).symm)
  rw [hflat] at htimes
  exact (pairwise_newest_iff parse _).mp (hdesc.and htimes)

/-- Paging visits each archive once and newest first, whatever the limit, if and only if
`localeCompare` orders the archives as the code units of their cursors and their times do. -/
theorem visits_each_once_iff (locale : Collation) (parse : String → Int) (payload : StatusPayload) :
    (∀ limit, VisitsEachOnce locale parse payload limit) ↔
      OrdersAgree locale parse (payload.archived.getD []) := by
  constructor
  · exact fun h => ordersAgree_of_visits parse (by decide : pageLimit (some 1) = 1) (h (some 1))
  · intro h limit
    have hsorted := (pairwise_newest_iff parse _).mpr h
    have hdesc : CursorPages.Descending cursorKey (newest locale (payload.archived.getD [])) :=
      hsorted.imp And.left
    obtain ⟨pages, hpaged, hflat⟩ := CursorPages.paged_of_descending (pageLimit_pos limit) hdesc
    refine ⟨pages, paged_of_cursorPaged hpaged rfl, ?_, ?_⟩
    · rw [hflat]
      exact perm_newest _
    · rw [hflat]
      exact hsorted.imp And.right

end

/-! ## Two workspaces removed at once -/

/-- Punctuation before digits before letters. -/
def primaryWeight (c : Char) : Nat :=
  if c.isAlpha then 100 + c.toLower.toNat
  else if c ∈ ['-', ':', '.', '|'] then 1 + ['-', ':', '.', '|'].idxOf c
  else if c.isDigit then c.toNat
  else 1000 + c.toNat

/-- The letters and the rest without their case, and then a lower case before an upper one. -/
def sortKey (text : String) : List Nat :=
  text.toList.map primaryWeight ++ 0 :: text.toList.map fun c => if c.isUpper then 1 else 0

/-- The default order of `localeCompare` on letters, digits and the punctuation of a cursor. -/
def rootCollation : Collation where
  compare a b := if sortKey a < sortKey b then -1 else if sortKey b < sortKey a then 1 else 0
  sign a b := by
    have := @lt_asymm _ _ (sortKey a) (sortKey b)
    split_ifs <;> simp_all
  trans a b c hab hbc := by
    have hle : ∀ {a b : String}, (if sortKey a < sortKey b then (-1 : Int)
        else if sortKey b < sortKey a then 1 else 0) ≤ 0 ↔ ¬ sortKey b < sortKey a := by
      intro a b
      have := @lt_asymm _ _ (sortKey a) (sortKey b)
      split_ifs <;> simp_all
    rw [hle, not_lt] at hab hbc ⊢
    exact hab.trans hbc

/-- Two archives of one millisecond: `localeCompare` puts `Zoo` first, the code units put `app`
first, and with pages of one archive `app` is never shown. -/
theorem misses_an_archive :
    [("2026-10-01T00:00:00.000Z", "Zoo--1790812800000"),
        ("2026-10-01T00:00:00.000Z", "app--1790812800000")].Nodup ∧
      ¬ VisitsEachOnce rootCollation (fun _ => 1790812800000)
        ⟨some [⟨"Zoo--1790812800000", "2026-10-01T00:00:00.000Z", ⟨0, 0, 0, 0, 0⟩⟩,
          ⟨"app--1790812800000", "2026-10-01T00:00:00.000Z", ⟨0, 0, 0, 0, 0⟩⟩], none⟩
        (some 1) :=
  ⟨by decide, fun h => absurd (ordersAgree_of_visits _ (by decide) h) (by decide +kernel)⟩

end Stim.Server.ArchivePages
