import Mathlib.Algebra.Order.BigOperators.Group.List
import Stim.Core.HostedLogs

/-!
# Complete pages

A page cuts each file at the start of a line, so that the next one goes on there.  A file is first
read from somewhere in a line; where the page's budget does not reach the end of that line, the
cursor entry is in the middle of it.  Where it reaches no line's end in any file, the next page is
the same.  Where it reaches too many lines of one file, every call throws.
-/

namespace Stim.Logs.HostedLogs

/-! ## Starts of lines -/

/-- A line starts there, or would. -/
def Boundary (bytes : List UInt8) (offset : Nat) : Prop :=
  offset ≤ bytes.length ∧ (offset = 0 ∨ bytes[offset - 1]? = some Utf8.newline)

instance (bytes : List UInt8) (offset : Nat) : Decidable (Boundary bytes offset) :=
  inferInstanceAs (Decidable (_ ∧ (_ ∨ _)))

def between (bytes : List UInt8) (start stop : Nat) : List UInt8 := (bytes.take stop).drop start

variable {bytes : List UInt8}

theorem Boundary.append {offset : Nat} (h : Boundary bytes offset) (more : List UInt8) :
    Boundary (bytes ++ more) offset := by
  obtain ⟨hle, hline⟩ := h
  refine ⟨by rw [List.length_append]; omega, hline.imp_right fun hbyte => ?_⟩
  have hlt := (List.getElem?_eq_some_iff.mp hbyte).1
  rw [List.getElem?_append_left hlt, hbyte]

theorem Boundary.lines {offset : Nat} (h : Boundary bytes offset) :
    Lines.rest Utf8.newline (bytes.take offset) = [] := by
  obtain ⟨hle, rfl | hbyte⟩ := h
  · rfl
  · by_cases hzero : offset = 0
    · rw [hzero]
      rfl
    · refine (Lines.rest_eq_nil_iff _).mpr (Or.inr ?_)
      rw [List.getLast?_eq_getElem?, List.length_take, Nat.min_eq_left hle,
        List.getElem?_take_of_lt (by omega), hbyte]

theorem between_append {start middle stop : Nat} (hstart : start ≤ middle) (hstop : middle ≤ stop)
    (hle : stop ≤ bytes.length) :
    between bytes start stop = between bytes start middle ++ between bytes middle stop := by
  have hsplit : bytes.take stop = bytes.take middle ++ (bytes.take stop).drop middle := by
    have h := List.take_append_drop middle (bytes.take stop)
    rw [List.take_take, Nat.min_eq_left hstop] at h
    exact h.symm
  rw [between, hsplit, List.drop_append_of_le_length (by rw [List.length_take]; omega)]
  rfl

theorem between_lines {start stop : Nat} (hle : start ≤ stop) (hstart : Boundary bytes start)
    (hstop : Boundary bytes stop) : Lines.rest Utf8.newline (between bytes start stop) = [] := by
  have hsplit : bytes.take stop = bytes.take start ++ between bytes start stop := by
    have h := List.take_append_drop start (bytes.take stop)
    rw [List.take_take, Nat.min_eq_left hle] at h
    exact h.symm
  have hlines := hstop.lines
  rw [hsplit, Lines.rest_append, hstart.lines, List.nil_append] at hlines
  exact hlines

theorem between_grow {stop : Nat} (hle : stop ≤ bytes.length) (start : Nat) (more : List UInt8) :
    between (bytes ++ more) start stop = between bytes start stop := by
  rw [between, between, List.take_append_of_le_length hle]

variable {ρ : Type} {parse : List Char → Option (Parsed ρ)} {most : Nat}

/-- Records between starts of lines, read in two parts. -/
theorem recordsOf_between {start middle stop : Nat} (hstart : start ≤ middle)
    (hstop : middle ≤ stop) (hfrom : Boundary bytes start) (hmiddle : Boundary bytes middle)
    (hle : stop ≤ bytes.length) :
    recordsOf parse (between bytes start stop) =
      recordsOf parse (between bytes start middle) ++ recordsOf parse (between bytes middle stop) := by
  rw [between_append hstart hstop hle, recordsOf_append parse (between_lines hstart hfrom hmiddle)]

/-! ## The page of one file -/

/-- What a page reads of a file: the lines between two starts of lines, and all of them when it
does not say that there is more. -/
structure Reads (parse : List Char → Option (Parsed ρ)) (bytes : List UInt8)
    (page : FilePage ρ) : Prop where
  first : Boundary bytes page.first
  offset : Boundary bytes page.offset
  first_le : page.first ≤ page.offset
  records_eq : page.records = recordsOf parse (between bytes page.first page.offset)
  done : page.more = false → page.offset = (Lines.through Utf8.newline bytes).length

/-- The bytes of a file that the budget reaches. -/
def reached (bytes : List UInt8) (offset : Option Nat) (budget : Nat) : List UInt8 :=
  (bytes.drop (startOf bytes offset)).take (min budget (bytes.length - startOf bytes offset))

variable {offset : Option Nat}

theorem readSpan_reached (h : startOf bytes offset ≤ bytes.length) (budget : Nat) :
    readSpan bytes (startOf bytes offset) (min bytes.length (startOf bytes offset +
      min budget (bytes.length - startOf bytes offset))) = reached bytes offset budget := by
  rw [readSpan, reached, Nat.min_eq_right (by omega), Nat.add_sub_cancel_left]

/-- Whether a line starts where a page begins to read a file, or at least one ends in what it
reads. -/
def StartsLine (bytes : List UInt8) (offset : Option Nat) (budget : Nat) : Prop :=
  offset.isSome = true ∨ startOf bytes offset = 0 ∨ Utf8.newline ∈ reached bytes offset budget ∨
    reached bytes offset budget = [] ∧ Boundary bytes (startOf bytes offset)

instance (bytes : List UInt8) (offset : Option Nat) (budget : Nat) :
    Decidable (StartsLine bytes offset budget) :=
  inferInstanceAs (Decidable (_ ∨ _ ∨ _ ∨ (_ ∧ _)))

/-- The complete lines that a page reads of a file. -/
def pageLines (bytes : List UInt8) (offset : Option Nat) (budget : Nat) : List UInt8 :=
  ((reached bytes offset budget).take
    (Lines.through Utf8.newline (reached bytes offset budget)).length).drop
      (firstLine (reached bytes offset budget) (offset.isSome || startOf bytes offset = 0))

theorem boundary_after {start length taken : Nat} (hpos : 0 < taken)
    (h : ((bytes.drop start).take length)[taken - 1]? = some Utf8.newline) :
    Boundary bytes (start + taken) := by
  rw [List.getElem?_take] at h
  split_ifs at h
  rw [List.getElem?_drop] at h
  have hlt := (List.getElem?_eq_some_iff.mp h).1
  refine ⟨by omega, Or.inr ?_⟩
  rw [← h]
  congr 1
  omega

theorem through_last (h : Lines.through Utf8.newline bytes ≠ []) :
    bytes[(Lines.through Utf8.newline bytes).length - 1]? = some Utf8.newline := by
  have hlast := ((Lines.rest_eq_nil_iff _).mp (Lines.rest_through bytes)).resolve_left h
  have hpos := List.length_pos_of_ne_nil h
  have hsplit : Lines.through Utf8.newline bytes ++ Lines.rest Utf8.newline bytes = bytes :=
    Lines.through_append_rest bytes
  rw [List.getLast?_eq_getElem?] at hlast
  calc bytes[(Lines.through Utf8.newline bytes).length - 1]?
      = (Lines.through Utf8.newline bytes ++ Lines.rest Utf8.newline bytes)[
          (Lines.through Utf8.newline bytes).length - 1]? := by rw [hsplit]
    _ = some Utf8.newline := by rw [List.getElem?_append_left (by omega), hlast]

theorem between_span {start length first stop : Nat}
    (hstop : stop ≤ ((bytes.drop start).take length).length) :
    between bytes (start + first) (start + stop) =
      (((bytes.drop start).take length).take stop).drop first := by
  rw [List.length_take] at hstop
  rw [between, ← List.drop_drop, List.drop_take, Nat.add_sub_cancel_left, List.take_take,
    Nat.min_eq_left (by omega)]

variable {budget : Nat}

/-- The first line that is read starts there, and not after the last one that is read. -/
theorem firstLine_spec (hoffset : ∀ e ∈ offset, Boundary bytes e)
    (h : StartsLine bytes offset budget) :
    Boundary bytes (startOf bytes offset + firstLine (reached bytes offset budget)
        (offset.isSome || startOf bytes offset = 0)) ∧
      firstLine (reached bytes offset budget) (offset.isSome || startOf bytes offset = 0) ≤
        (Lines.through Utf8.newline (reached bytes offset budget)).length := by
  unfold firstLine
  split_ifs with haligned hline
  · refine ⟨?_, Nat.zero_le _⟩
    rw [Bool.or_eq_true, decide_eq_true_iff] at haligned
    obtain hsome | hzero := haligned
    · obtain ⟨e, he⟩ := Option.isSome_iff_exists.mp hsome
      rw [he]
      exact hoffset e he
    · rw [hzero]
      exact ⟨Nat.zero_le _, Or.inl rfl⟩
  · have hbyte : (reached bytes offset budget)[
        List.idxOf Utf8.newline (reached bytes offset budget) + 1 - 1]? = some Utf8.newline := by
      rw [Nat.add_sub_cancel]
      exact List.getElem?_idxOf hline
    exact ⟨boundary_after (Nat.succ_pos _) hbyte, Lines.idxOf_lt_length_through hline⟩
  · rw [Bool.or_eq_true, not_or, decide_eq_true_iff] at haligned
    obtain hsome | hzero | hmem | ⟨hnone, hboundary⟩ := h
    · exact absurd hsome haligned.1
    · exact absurd hzero haligned.2
    · exact absurd hmem hline
    · rw [hnone]
      exact ⟨hboundary, Nat.le_refl _⟩

theorem startOf_le (hoffset : ∀ e ∈ offset, Boundary bytes e) :
    startOf bytes offset ≤ bytes.length := by
  cases offset with
  | none =>
      rw [startOf, Option.getD_none]
      exact Nat.sub_le _ _
  | some e => exact (hoffset e rfl).1

theorem length_reached (budget : Nat) :
    (reached bytes offset budget).length = min budget (bytes.length - startOf bytes offset) := by
  rw [reached, List.length_take, List.length_drop]
  omega

variable {name : String}

/-- The page of a file in terms of the bytes that it reaches. -/
theorem readCurrent_eq (budget : Nat) (hoffset : ∀ e ∈ offset, Boundary bytes e)
    (h : StartsLine bytes offset budget) :
    (readCurrent parse name bytes offset budget).1 =
      { name := name
        records := recordsOf parse (pageLines bytes offset budget)
        pushed := (recordsOf parse (pageLines bytes offset budget)).length
        first := startOf bytes offset + firstLine (reached bytes offset budget)
          (offset.isSome || startOf bytes offset = 0)
        offset := startOf bytes offset +
          (Lines.through Utf8.newline (reached bytes offset budget)).length
        more := budget < bytes.length - startOf bytes offset } := by
  have hstart := startOf_le hoffset
  obtain ⟨-, hfirst⟩ := firstLine_spec hoffset h
  have hlength : (reached bytes offset budget).length = _ := length_reached budget
  have hthrough : (Lines.through Utf8.newline (reached bytes offset budget)).length ≤
      (reached bytes offset budget).length := Lines.length_through_le _
  rw [readCurrent]
  dsimp only [readLines, pageLines]
  rw [readSpan_reached hstart]
  generalize firstLine (reached bytes offset budget) _ = first at hfirst ⊢
  generalize (Lines.through Utf8.newline (reached bytes offset budget)).length = stop at hfirst hthrough ⊢
  have hmore : decide (startOf bytes offset + min budget (bytes.length - startOf bytes offset) <
      bytes.length) = decide (budget < bytes.length - startOf bytes offset) :=
    decide_eq_decide.mpr (by omega)
  have hnone : ¬ first < stop →
      ((reached bytes offset budget).take stop).drop first = [] := fun hnot =>
    List.drop_of_length_le (by rw [List.length_take]; omega)
  have hrecords : (if 0 < min budget (bytes.length - startOf bytes offset) then
      (if first < stop then recordsOf parse (((reached bytes offset budget).take stop).drop first)
        else []) else []) =
      recordsOf parse (((reached bytes offset budget).take stop).drop first) := by
    split_ifs with hreading hlines
    · rfl
    · rw [hnone hlines]
      rfl
    · rw [hnone (by omega)]
      rfl
  rw [hmore, hrecords]
  congr 1
  · split_ifs with hreading
    · rw [Nat.max_eq_right hfirst]
    · omega

/-- A page reads a file when a line starts where it begins, or one ends in what it reaches. -/
theorem readCurrent_reads (hoffset : ∀ e ∈ offset, Boundary bytes e)
    (h : StartsLine bytes offset budget) :
    Reads parse bytes (readCurrent parse name bytes offset budget).1 := by
  obtain ⟨hboundary, hfirst⟩ := firstLine_spec hoffset h
  have hstart := startOf_le hoffset
  have hempty : Lines.through Utf8.newline (reached bytes offset budget) = [] →
      Boundary bytes (startOf bytes offset) := by
    intro hnone
    rw [hnone, List.length_nil, Nat.le_zero] at hfirst
    rw [hfirst] at hboundary
    exact hboundary
  rw [readCurrent_eq budget hoffset h]
  refine ⟨hboundary, ?_, Nat.add_le_add_left hfirst _, ?_, fun hdone => ?_⟩
  · by_cases hnone : Lines.through Utf8.newline (reached bytes offset budget) = []
    · dsimp only
      rw [hnone]
      exact hempty hnone
    · exact boundary_after (List.length_pos_of_ne_nil hnone) (through_last hnone)
  · dsimp only [pageLines]
    rw [reached, between_span (Lines.length_through_le _)]
  · -- the budget reaches the end of the file
    have hall : reached bytes offset budget = bytes.drop (startOf bytes offset) := by
      have hfits : ¬ budget < bytes.length - startOf bytes offset := by simpa using hdone
      exact List.take_of_length_le (by rw [List.length_drop]; omega)
    have hsplit : bytes = bytes.take (startOf bytes offset) ++
        bytes.drop (startOf bytes offset) := (List.take_append_drop _ _).symm
    have hlength : (bytes.take (startOf bytes offset)).length = startOf bytes offset := by
      rw [List.length_take, Nat.min_eq_left hstart]
    dsimp only
    rw [hall] at hempty ⊢
    by_cases hmem : Utf8.newline ∈ bytes.drop (startOf bytes offset)
    · conv_rhs => rw [hsplit, Lines.through_append_of_mem _ hmem, List.length_append, hlength]
    · have hboundary := hempty (Lines.through_of_not_mem hmem)
      conv_rhs => rw [hsplit, Lines.through_append hboundary.lines, List.length_append, hlength]

/-! ## The pages of a call -/

/-- A cursor entry of a file, where it has one, is the start of a line. -/
def Valid (cursor : HostedLogsCursor) (entry : String × LogFile) : Prop :=
  ∀ offset ∈ cursor.get entry.1, Boundary entry.2.bytes offset

def unread (cursor : HostedLogsCursor) (entry : String × LogFile) : Nat :=
  entry.2.bytes.length - startOf entry.2.bytes (cursor.get entry.1)

variable {cursor : HostedLogsCursor} {entry : String × LogFile}

theorem readFile_eq (h : Valid cursor entry) (budget : Nat) :
    readFile parse most cursor budget entry =
      readCurrent parse entry.1 entry.2.bytes (cursor.get entry.1) budget := by
  unfold readFile
  cases hget : cursor.get entry.1 with
  | none => rfl
  | some offset =>
      have hle := (h offset hget).1
      dsimp only
      rw [if_neg (by omega)]

theorem readFile_budget (h : Valid cursor entry) (budget : Nat) :
    (readFile parse most cursor budget entry).2 = budget - unread cursor entry := by
  rw [readFile_eq h, readCurrent, unread]
  omega

theorem readFiles_cons (h : Valid cursor entry) (budget : Nat) (entries : List (String × LogFile)) :
    readFiles parse most cursor budget (entry :: entries) =
      (readCurrent parse entry.1 entry.2.bytes (cursor.get entry.1) budget).1 ::
        readFiles parse most cursor (budget - unread cursor entry) entries := by
  rw [readFiles, readFile_budget h, readFile_eq h]

/-- Each file is read from the start of a line, or at least one ends in what is read of it. -/
def StartsLines (cursor : HostedLogsCursor) : Nat → List (String × LogFile) → Prop
  | _, [] => True
  | budget, entry :: entries =>
      StartsLine entry.2.bytes (cursor.get entry.1) budget ∧
        StartsLines cursor (budget - unread cursor entry) entries

/-- A line ends in what is read. -/
def ReachesLine (cursor : HostedLogsCursor) : Nat → List (String × LogFile) → Prop
  | _, [] => False
  | budget, entry :: entries =>
      Utf8.newline ∈ reached entry.2.bytes (cursor.get entry.1) budget ∨
        ReachesLine cursor (budget - unread cursor entry) entries

/-- No file has more records in the lines that are read of it than a call takes arguments. -/
def FewRecords (parse : List Char → Option (Parsed ρ)) (most : Nat) (cursor : HostedLogsCursor) :
    Nat → List (String × LogFile) → Prop
  | _, [] => True
  | budget, entry :: entries =>
      (recordsOf parse (pageLines entry.2.bytes (cursor.get entry.1) budget)).length ≤ most ∧
        FewRecords parse most cursor (budget - unread cursor entry) entries

/-- What a page says of a file. -/
structure PageOf (parse : List Char → Option (Parsed ρ)) (cursor : HostedLogsCursor)
    (entry : String × LogFile) (page : FilePage ρ) : Prop where
  name_eq : page.name = entry.1
  reads : Reads parse entry.2.bytes page
  first_eq : ∀ offset ∈ cursor.get entry.1, page.first = offset

theorem readCurrent_pageOf (h : Valid cursor entry)
    (hstarts : StartsLine entry.2.bytes (cursor.get entry.1) budget) :
    PageOf parse cursor entry
      (readCurrent parse entry.1 entry.2.bytes (cursor.get entry.1) budget).1 := by
  refine ⟨rfl, readCurrent_reads h hstarts, fun offset hoffset => ?_⟩
  rw [readCurrent_eq budget h hstarts, hoffset]
  rfl

variable {entries : List (String × LogFile)}

theorem readFiles_pages (h : ∀ entry ∈ entries, Valid cursor entry)
    (hstarts : StartsLines cursor budget entries) :
    List.Forall₂ (PageOf parse cursor) entries (readFiles parse most cursor budget entries) := by
  induction entries generalizing budget with
  | nil => exact List.Forall₂.nil
  | cons entry entries ih =>
      have hvalid := h entry List.mem_cons_self
      rw [readFiles_cons hvalid]
      exact List.Forall₂.cons (readCurrent_pageOf hvalid hstarts.1)
        (ih (fun other hmem => h other (List.mem_cons_of_mem entry hmem)) hstarts.2)

theorem pushed_le (h : ∀ entry ∈ entries, Valid cursor entry)
    (hstarts : StartsLines cursor budget entries)
    (hfew : FewRecords parse most cursor budget entries) :
    ∀ page ∈ readFiles parse most cursor budget entries, page.pushed ≤ most := by
  induction entries generalizing budget with
  | nil => simp [readFiles]
  | cons entry entries ih =>
      have hvalid := h entry List.mem_cons_self
      rw [readFiles_cons hvalid]
      intro page hpage
      obtain rfl | hrest := List.mem_cons.mp hpage
      · rw [readCurrent_eq budget hvalid hstarts.1]
        exact hfew.1
      · exact ih (fun other hmem => h other (List.mem_cons_of_mem entry hmem)) hstarts.2 hfew.2
          page hrest

/-- When the budget reaches the end of every file, a page does not say that there is more. -/
theorem not_more_of_fits (h : ∀ entry ∈ entries, Valid cursor entry)
    (hstarts : StartsLines cursor budget entries)
    (hfits : (entries.map (unread cursor)).sum ≤ budget) :
    ∀ page ∈ readFiles parse most cursor budget entries, page.more = false := by
  induction entries generalizing budget with
  | nil => simp [readFiles]
  | cons entry entries ih =>
      have hvalid := h entry List.mem_cons_self
      rw [List.map_cons, List.sum_cons] at hfits
      rw [readFiles_cons hvalid]
      intro page hpage
      obtain rfl | hrest := List.mem_cons.mp hpage
      · rw [readCurrent_eq budget hvalid hstarts.1]
        unfold unread at hfits
        exact decide_eq_false (by omega)
      · exact ih (fun other hmem => h other (List.mem_cons_of_mem entry hmem)) hstarts.2
          (by omega) page hrest

/-! ## What is left -/

/-- The bytes of a file after its cursor entry, and one more when it has none. -/
def leftOf (cursor : HostedLogsCursor) (entry : String × LogFile) : Nat :=
  match cursor.get entry.1 with
  | none => entry.2.bytes.length + 1
  | some offset => entry.2.bytes.length - offset

def left (directory : Directory) (cursor : HostedLogsCursor) : Nat :=
  ((logFiles directory).map (leftOf cursor)).sum

def leftAfter (entry : String × LogFile) (page : FilePage ρ) : Nat :=
  entry.2.bytes.length - page.offset

variable {page : FilePage ρ}

theorem PageOf.left_le (h : PageOf parse cursor entry page) :
    leftAfter entry page ≤ leftOf cursor entry := by
  unfold leftAfter leftOf
  cases hget : cursor.get entry.1 with
  | none =>
      dsimp only
      omega
  | some offset =>
      have hfirst := h.first_eq offset hget
      have hle := h.reads.first_le
      dsimp only
      omega

theorem left_lt_of_new (hget : cursor.get entry.1 = none) :
    leftAfter entry page < leftOf cursor entry := by
  unfold leftAfter leftOf
  rw [hget]
  dsimp only
  omega

theorem left_lt_of_line (h : Valid cursor entry)
    (hstarts : StartsLine entry.2.bytes (cursor.get entry.1) budget)
    (hline : Utf8.newline ∈ reached entry.2.bytes (cursor.get entry.1) budget) :
    leftAfter entry
        (readCurrent parse entry.1 entry.2.bytes (cursor.get entry.1) budget).1 <
      leftOf cursor entry := by
  cases hget : cursor.get entry.1 with
  | none => exact left_lt_of_new hget
  | some offset =>
      have hpage : PageOf parse cursor entry _ := readCurrent_pageOf h hstarts
      have hreads := hpage.reads.offset.1
      have hpos := List.length_pos_of_mem (Lines.mem_through hline)
      rw [readCurrent_eq budget h hstarts, hget] at hreads
      rw [hget] at hpos
      unfold leftAfter leftOf
      rw [hget, readCurrent_eq budget (hget ▸ h) (hget ▸ hstarts)]
      dsimp only [startOf, Option.getD_some] at hreads ⊢
      omega

variable {pages : List (FilePage ρ)}

/-- The pages of a call leave no more of any file than there was. -/
theorem sum_left_le (h : List.Forall₂ (PageOf parse cursor) entries pages) :
    (List.zipWith leftAfter entries pages).sum ≤ (entries.map (leftOf cursor)).sum := by
  induction h with
  | nil => exact Nat.le_refl _
  | cons hpage _ ih =>
      rw [List.zipWith_cons_cons, List.map_cons, List.sum_cons, List.sum_cons]
      exact Nat.add_le_add hpage.left_le ih

/-- They leave less when a file is new to the cursor or a line ends in what is read. -/
theorem sum_left_lt (h : ∀ entry ∈ entries, Valid cursor entry)
    (hstarts : StartsLines cursor budget entries)
    (hmoves : (∃ entry ∈ entries, cursor.get entry.1 = none) ∨
      ReachesLine cursor budget entries) :
    (List.zipWith leftAfter entries (readFiles parse most cursor budget entries)).sum <
      (entries.map (leftOf cursor)).sum := by
  induction entries generalizing budget with
  | nil =>
      obtain ⟨entry, hmem, -⟩ | hnone := hmoves
      · cases hmem
      · cases hnone
  | cons entry entries ih =>
      have hvalid := h entry List.mem_cons_self
      have hothers : ∀ other ∈ entries, Valid cursor other :=
        fun other hmem => h other (List.mem_cons_of_mem entry hmem)
      have hpage : PageOf parse cursor entry _ := readCurrent_pageOf hvalid hstarts.1
      have hpages : List.Forall₂ (PageOf parse cursor) entries (readFiles parse most cursor _ entries) :=
        readFiles_pages hothers hstarts.2
      have hrest := sum_left_le hpages
      rw [readFiles_cons hvalid, List.zipWith_cons_cons, List.map_cons, List.sum_cons,
        List.sum_cons]
      have hfirst : cursor.get entry.1 = none ∨
          Utf8.newline ∈ reached entry.2.bytes (cursor.get entry.1) budget →
          leftAfter entry (readCurrent parse entry.1 entry.2.bytes (cursor.get entry.1) budget).1 <
            leftOf cursor entry :=
        fun hor => hor.elim left_lt_of_new (left_lt_of_line hvalid hstarts.1)
      obtain ⟨other, hmem, hnew⟩ | hline | hline := hmoves
      · obtain rfl | hlater := List.mem_cons.mp hmem
        · exact Nat.add_lt_add_of_lt_of_le (hfirst (Or.inl hnew)) hrest
        · exact Nat.add_lt_add_of_le_of_lt hpage.left_le
            (ih hothers hstarts.2 (Or.inl ⟨other, hlater, hnew⟩))
      · exact Nat.add_lt_add_of_lt_of_le (hfirst (Or.inr hline)) hrest
      · exact Nat.add_lt_add_of_le_of_lt hpage.left_le (ih hothers hstarts.2 (Or.inr hline))

/-! ## The cursor of a page -/

variable {directory : Directory}

theorem mem_logFiles : entry ∈ logFiles directory ↔ directory.get entry.1 = some entry.2 := by
  rw [logFiles, (List.perm_insertionSort _ _).mem_iff, OrderedMap.get_eq_some_iff]

theorem nodup_logFiles (directory : Directory) : ((logFiles directory).map Prod.fst).Nodup :=
  ((List.perm_insertionSort _ _).map Prod.fst).nodup_iff.mpr directory.nodup

theorem map_name_pages (h : List.Forall₂ (PageOf parse cursor) entries pages) :
    pages.map FilePage.name = entries.map Prod.fst := by
  induction h with
  | nil => rfl
  | cons hpage _ ih => rw [List.map_cons, List.map_cons, hpage.name_eq, ih]

theorem exists_page (h : List.Forall₂ (PageOf parse cursor) entries pages)
    (hmem : entry ∈ entries) : ∃ page ∈ pages, PageOf parse cursor entry page := by
  induction h with
  | nil => cases hmem
  | cons hpage _ ih =>
      obtain rfl | hlater := List.mem_cons.mp hmem
      · exact ⟨_, List.mem_cons_self, hpage⟩
      · obtain ⟨page, hin, hof⟩ := ih hlater
        exact ⟨page, List.mem_cons_of_mem _ hin, hof⟩

theorem filter_name (h : (pages.map FilePage.name).Nodup) (hmem : page ∈ pages) :
    pages.filter (fun other => other.name = page.name) = [page] := by
  induction pages with
  | nil => cases hmem
  | cons first pages ih =>
      rw [List.map_cons, List.nodup_cons] at h
      obtain rfl | hlater := List.mem_cons.mp hmem
      · have hnone : pages.filter (fun other => other.name = page.name) = [] := by
          refine List.filter_eq_nil_iff.mpr fun other hother hname => h.1 ?_
          rw [← of_decide_eq_true hname]
          exact List.mem_map_of_mem hother
        rw [List.filter_cons_of_pos (by simp), hnone]
      · have hne : first.name ≠ page.name := fun heq =>
          h.1 (heq ▸ List.mem_map_of_mem hlater)
        rw [List.filter_cons_of_neg (by simpa using hne), ih h.2 hlater]

theorem get_ofList_pages (h : (pages.map FilePage.name).Nodup) (hmem : page ∈ pages) :
    (OrderedMap.ofList (pages.map fun page => (page.name, page.offset))).get page.name =
      some page.offset := by
  have hnodup : ((pages.map fun page => (page.name, page.offset)).map Prod.fst).Nodup := by
    rw [List.map_map]
    exact h
  rw [OrderedMap.get_eq_some_iff, OrderedMap.entries_ofList hnodup]
  exact List.mem_map_of_mem (f := fun page : FilePage ρ => (page.name, page.offset)) hmem

/-- What a call does to a file of the directory. -/
structure Called (parse : List Char → Option (Parsed ρ)) (most : Nat) (s : Paging ρ)
    (entry : String × LogFile) (page : FilePage ρ) : Prop where
  pageOf : PageOf parse s.cursor entry page
  mem : page ∈ readFiles parse most s.cursor HOSTED_LOGS_PAGE_BYTES (logFiles s.directory)
  cursor_eq : (answered parse most s).cursor.get entry.1 = some page.offset
  collected_eq : (answered parse most s).collected entry.1 = s.collected entry.1 ++ page.records
  begun_eq : (answered parse most s).begun entry.1 = (s.begun entry.1).or (some page.first)

variable {s : Paging ρ}

theorem exists_called (h : ∀ entry ∈ logFiles s.directory, Valid s.cursor entry)
    (hstarts : StartsLines s.cursor HOSTED_LOGS_PAGE_BYTES (logFiles s.directory))
    (hmem : entry ∈ logFiles s.directory) : ∃ page, Called parse most s entry page := by
  have hpages : List.Forall₂ (PageOf parse s.cursor) _ (readFiles parse most _ _ _) :=
    readFiles_pages h hstarts
  obtain ⟨page, hpage, hof⟩ := exists_page hpages hmem
  have hnodup : ((readFiles parse most s.cursor HOSTED_LOGS_PAGE_BYTES
      (logFiles s.directory)).map FilePage.name).Nodup := by
    rw [map_name_pages hpages]
    exact nodup_logFiles s.directory
  have hfilter := filter_name hnodup hpage
  rw [hof.name_eq] at hfilter
  refine ⟨page, hof, hpage, ?_, ?_, ?_⟩
  · rw [← hof.name_eq]
    exact get_ofList_pages hnodup hpage
  · show s.collected entry.1 ++ (List.filter _ _).flatMap _ = _
    rw [hfilter]
    simp
  · show (s.begun entry.1).or (Option.map _ (List.find? _ _)) = _
    rw [← List.head?_filter, hfilter]
    rfl

theorem map_leftOf {cursor after : HostedLogsCursor}
    (h : List.Forall₂ (PageOf parse cursor) entries pages)
    (hget : ∀ page ∈ pages, after.get page.name = some page.offset) :
    entries.map (leftOf after) = List.zipWith leftAfter entries pages := by
  induction h with
  | nil => rfl
  | cons hpage _ ih =>
      have hfirst := hget _ List.mem_cons_self
      rw [hpage.name_eq] at hfirst
      rw [List.map_cons, List.zipWith_cons_cons, leftOf, hfirst,
        ih fun page hmem => hget page (List.mem_cons_of_mem _ hmem)]
      rfl

theorem left_called (h : ∀ entry ∈ logFiles s.directory, Valid s.cursor entry)
    (hstarts : StartsLines s.cursor HOSTED_LOGS_PAGE_BYTES (logFiles s.directory)) :
    left s.directory (answered parse most s).cursor =
      (List.zipWith leftAfter (logFiles s.directory)
        (readFiles parse most s.cursor HOSTED_LOGS_PAGE_BYTES (logFiles s.directory))).sum := by
  have hpages : List.Forall₂ (PageOf parse s.cursor) _ (readFiles parse most _ _ _) :=
    readFiles_pages h hstarts
  rw [left, map_leftOf hpages]
  refine fun page hpage => get_ofList_pages ?_ hpage
  rw [map_name_pages hpages]
  exact nodup_logFiles s.directory

/-! ## Runs -/

/-- What a call needs: each file that it begins to read, a line starts there or one ends in what
the budget reaches; no file has more records in what the budget reaches than a call takes arguments;
and when every file has an entry and there is more than a page, a line ends in what the budget
reaches. -/
def Pageable (parse : List Char → Option (Parsed ρ)) (most : Nat) (s : Paging ρ) : Action → Prop
  | .append _ _ => True
  | .call => StartsLines s.cursor HOSTED_LOGS_PAGE_BYTES (logFiles s.directory) ∧
      FewRecords parse most s.cursor HOSTED_LOGS_PAGE_BYTES (logFiles s.directory) ∧
      ((∃ entry ∈ logFiles s.directory, s.cursor.get entry.1 = none) ∨
        ((logFiles s.directory).map (unread s.cursor)).sum ≤ HOSTED_LOGS_PAGE_BYTES ∨
        ReachesLine s.cursor HOSTED_LOGS_PAGE_BYTES (logFiles s.directory))

/-- An entry is new, or further on. -/
def Advances (before after : HostedLogsCursor) : Prop :=
  ∃ name offset, after.get name = some offset ∧ ∀ old, before.get name = some old → old < offset

/-- What was returned of a file is what is between where its lines began and its entry. -/
def Collected (parse : List Char → Option (Parsed ρ)) (s : Paging ρ) (name : String)
    (offset : Nat) : Prop :=
  ∃ file start, s.directory.get name = some file ∧ s.begun name = some start ∧
    Boundary file.bytes start ∧ Boundary file.bytes offset ∧ start ≤ offset ∧
    s.collected name = recordsOf parse (between file.bytes start offset)

/-- A call has a page; it goes on when that says that there is more, and has reached the last line
of every file when it does not. -/
structure CallComplete (call : Call ρ) (page : HostedLogsPage ρ) : Prop where
  page_eq : call.page = some page
  progress : page.more = true → Advances call.cursor page.cursor
  finished : page.more = false → ∀ name file, call.directory.get name = some file →
    page.cursor.get name = some (Lines.through Utf8.newline file.bytes).length

structure Complete (parse : List Char → Option (Parsed ρ)) (start : HostedLogsCursor)
    (s : Paging ρ) : Prop where
  entries : ∀ name offset, s.cursor.get name = some offset → Collected parse s name offset
  started : ∀ name offset, start.get name = some offset → s.begun name = some offset
  absent : ∀ name, s.cursor.get name = none → s.begun name = none ∧ s.collected name = []
  last : ∀ call ∈ s.last, ∃ page, CallComplete call page

variable {start : HostedLogsCursor}

theorem complete_opened
    (h : ∀ name offset, start.get name = some offset → ∃ file, directory.get name = some file ∧
      Boundary file.bytes offset) :
    Complete parse start (opened directory start : Paging ρ) where
  entries := fun name offset hget => by
    obtain ⟨file, hfile, hboundary⟩ := h name offset hget
    refine ⟨file, offset, hfile, hget, hboundary, hboundary, Nat.le_refl _, ?_⟩
    have hnone : between file.bytes offset offset = [] :=
      List.drop_of_length_le (by rw [List.length_take]; omega)
    rw [hnone]
    rfl
  started := fun name offset hget => hget
  absent := fun name hget => ⟨hget, rfl⟩
  last := fun call hcall => by cases hcall

theorem Complete.valid (h : Complete parse start s) :
    ∀ entry ∈ logFiles s.directory, Valid s.cursor entry := by
  intro entry hmem offset hoffset
  obtain ⟨file, first, hfile, -, -, hboundary, -⟩ := h.entries entry.1 offset hoffset
  rw [mem_logFiles.mp hmem] at hfile
  cases hfile
  exact hboundary

/-- The page of a call, when no push throws. -/
abbrev pageOf (parse : List Char → Option (Parsed ρ)) (most : Nat) (s : Paging ρ) :
    HostedLogsPage ρ :=
  joined (readFiles parse most s.cursor HOSTED_LOGS_PAGE_BYTES (logFiles s.directory))

theorem readLogsSince_eq (h : ∀ entry ∈ logFiles s.directory, Valid s.cursor entry)
    (hPageable : Pageable parse most s .call) :
    readLogsSince parse most s.directory s.cursor = some (pageOf parse most s) := by
  refine if_neg ?_
  rw [List.any_eq_true]
  rintro ⟨page, hpage, hover⟩
  exact Nat.not_lt.mpr (pushed_le h hPageable.1 hPageable.2.1 page hpage) (of_decide_eq_true hover)

theorem eq_pageOf {page : HostedLogsPage ρ}
    (h : readLogsSince parse most s.directory s.cursor = some page) : page = pageOf parse most s :=
  (Option.some.inj (Option.ite_none_left_eq_some.mp h).2).symm

/-- The page of a call that is complete is that of the state before it. -/
theorem callComplete_called (h : Complete parse start (called parse most s)) :
    CallComplete ⟨s.directory, s.cursor, some (pageOf parse most s)⟩ (pageOf parse most s) := by
  have hlast : (called parse most s).last =
      some ⟨s.directory, s.cursor, readLogsSince parse most s.directory s.cursor⟩ := by
    unfold called
    cases hread : readLogsSince parse most s.directory s.cursor with
    | none => rfl
    | some page =>
        rw [eq_pageOf hread]
        rfl
  obtain ⟨page, hpage, hprogress, hfinished⟩ := h.last _ hlast
  obtain rfl := eq_pageOf hpage
  exact ⟨rfl, hprogress, hfinished⟩

theorem called_eq (h : ∀ entry ∈ logFiles s.directory, Valid s.cursor entry)
    (hPageable : Pageable parse most s .call) : called parse most s = answered parse most s := by
  rw [called, readLogsSince_eq h hPageable]

theorem called_progress (h : ∀ entry ∈ logFiles s.directory, Valid s.cursor entry)
    (hPageable : Pageable parse most s .call) (hmore : (pageOf parse most s).more = true) :
    left s.directory (answered parse most s).cursor < left s.directory s.cursor := by
  obtain ⟨hstarts, -, hmoves⟩ := hPageable
  rw [left_called h hstarts]
  refine sum_left_lt h hstarts ?_
  obtain hnew | hfits | hline := hmoves
  · exact Or.inl hnew
  · obtain ⟨page, hpage, hyes⟩ := List.any_eq_true.mp hmore
    rw [not_more_of_fits h hstarts hfits page hpage] at hyes
    cases hyes
  · exact Or.inr hline

theorem advances_of_left_lt {before after : HostedLogsCursor}
    (h : left directory after < left directory before) (hall : ∀ entry ∈ logFiles directory,
      (after.get entry.1).isSome) : Advances before after := by
  obtain ⟨entry, hmem, hless⟩ := List.exists_lt_of_sum_lt _ _ h
  obtain ⟨offset, hoffset⟩ := Option.isSome_iff_exists.mp (hall entry hmem)
  refine ⟨entry.1, offset, hoffset, fun old hold => ?_⟩
  unfold leftOf at hless
  rw [hoffset, hold] at hless
  dsimp only at hless
  omega

theorem directory_of_page (h : ∀ entry ∈ logFiles s.directory, Valid s.cursor entry)
    (hstarts : StartsLines s.cursor HOSTED_LOGS_PAGE_BYTES (logFiles s.directory))
    (hpage : page ∈ readFiles parse most s.cursor HOSTED_LOGS_PAGE_BYTES (logFiles s.directory)) :
    ∃ file, s.directory.get page.name = some file := by
  have hname := List.mem_map_of_mem (f := FilePage.name) hpage
  rw [map_name_pages (readFiles_pages h hstarts)] at hname
  obtain ⟨entry, hentry, hname⟩ := List.mem_map.mp hname
  rw [← hname]
  exact ⟨entry.2, mem_logFiles.mp hentry⟩

theorem directory_of_cursor (h : ∀ entry ∈ logFiles s.directory, Valid s.cursor entry)
    (hstarts : StartsLines s.cursor HOSTED_LOGS_PAGE_BYTES (logFiles s.directory)) {offset : Nat}
    (hget : (answered parse most s).cursor.get name = some offset) :
    ∃ file, s.directory.get name = some file := by
  obtain ⟨page, hpage, heq⟩ := List.mem_map.mp (OrderedMap.mem_of_get_ofList hget)
  cases heq
  exact directory_of_page h hstarts hpage

/-- What a call returns of a file goes on from what was returned before. -/
theorem called_collected (h : Complete parse start s) (hmem : entry ∈ logFiles s.directory)
    (hcalled : Called parse most s entry page) :
    Collected parse (answered parse most s) entry.1 page.offset := by
  have hreads := hcalled.pageOf.reads
  have hfile := mem_logFiles.mp hmem
  cases hget : s.cursor.get entry.1 with
  | none =>
      obtain ⟨hbegun, hcollected⟩ := h.absent entry.1 hget
      refine ⟨entry.2, page.first, hfile, ?_, hreads.first, hreads.offset, hreads.first_le, ?_⟩
      · rw [hcalled.begun_eq, hbegun]
        rfl
      · rw [hcalled.collected_eq, hcollected, List.nil_append, hreads.records_eq]
  | some old =>
      obtain ⟨file, first, hsame, hbegun, hfirst, hold, hle, hcollected⟩ := h.entries entry.1 old hget
      rw [hfile] at hsame
      cases hsame
      have heq := hcalled.pageOf.first_eq old hget
      have hnext := hreads.first_le
      have hrecords := hreads.records_eq
      rw [heq] at hnext hrecords
      refine ⟨entry.2, first, hfile, ?_, hfirst, hreads.offset, hle.trans hnext, ?_⟩
      · rw [hcalled.begun_eq, hbegun]
        rfl
      · rw [hcalled.collected_eq, hcollected, hrecords,
          recordsOf_between hle hnext hfirst hold hreads.offset.1]

theorem called_absent (h : Complete parse start s)
    (hstarts : StartsLines s.cursor HOSTED_LOGS_PAGE_BYTES (logFiles s.directory))
    (hdirectory : s.directory.get name = none) :
    (answered parse most s).begun name = none ∧ (answered parse most s).collected name = [] := by
  have hcursor : s.cursor.get name = none := by
    refine Option.eq_none_iff_forall_ne_some.mpr fun offset hget => ?_
    obtain ⟨file, first, hfile, -⟩ := h.entries name offset hget
    rw [hdirectory] at hfile
    cases hfile
  have hpages : (readFiles parse most s.cursor HOSTED_LOGS_PAGE_BYTES
      (logFiles s.directory)).filter (fun page => page.name = name) = [] := by
    refine List.filter_eq_nil_iff.mpr fun page hpage hname => ?_
    obtain ⟨file, hfile⟩ := directory_of_page h.valid hstarts hpage
    rw [of_decide_eq_true hname, hdirectory] at hfile
    cases hfile
  obtain ⟨hbegun, hcollected⟩ := h.absent name hcursor
  constructor
  · show (s.begun name).or (Option.map _ (List.find? _ _)) = _
    rw [hbegun, ← List.head?_filter, hpages]
    rfl
  · show s.collected name ++ (List.filter _ _).flatMap _ = _
    rw [hcollected, hpages]
    rfl

theorem called_complete (h : Complete parse start s) (hPageable : Pageable parse most s .call) :
    Complete parse start (called parse most s) := by
  rw [called_eq h.valid hPageable]
  have hstarts := hPageable.1
  have hfiles : ∀ name file, s.directory.get name = some file →
      ∃ page, Called parse most s (name, file) page := fun name file hfile =>
    exists_called h.valid hstarts (mem_logFiles.mpr hfile)
  refine ⟨fun name offset hget => ?_, fun name offset hget => ?_, fun name hget => ?_,
    fun call hcall => ?_⟩
  · obtain ⟨file, hfile⟩ := directory_of_cursor h.valid hstarts hget
    obtain ⟨page, hcalled⟩ := hfiles name file hfile
    rw [hcalled.cursor_eq] at hget
    cases hget
    exact called_collected h (mem_logFiles.mpr hfile) hcalled
  · show (s.begun name).or _ = _
    rw [h.started name offset hget]
    rfl
  · refine called_absent h hstarts (Option.eq_none_iff_forall_ne_some.mpr fun file hfile => ?_)
    obtain ⟨page, hcalled⟩ := hfiles name file hfile
    rw [hcalled.cursor_eq] at hget
    cases hget
  · cases hcall
    refine ⟨pageOf parse most s, rfl, fun hmore => ?_, fun hdone name file hfile => ?_⟩
    · refine advances_of_left_lt (called_progress h.valid hPageable hmore) fun entry hmem => ?_
      obtain ⟨page, hcalled⟩ : ∃ page, Called parse most s entry page :=
        exists_called h.valid hstarts hmem
      exact Option.isSome_of_eq_some hcalled.cursor_eq
    · obtain ⟨page, hcalled⟩ := hfiles name file hfile
      have hlast : page.more = false := by
        simpa using List.any_eq_false.mp hdone page hcalled.mem
      exact hcalled.cursor_eq.trans (congrArg some (hcalled.pageOf.reads.done hlast))

theorem get_appended_self (directory : Directory) (name : String) (bytes : List UInt8) :
    ∃ file, (appended directory name bytes).get name = some file ∧
      ∀ old, directory.get name = some old → file.bytes = old.bytes ++ bytes := by
  unfold appended
  cases hget : directory.get name with
  | none => exact ⟨_, OrderedMap.get_set_self, fun old hold => by cases hold⟩
  | some file =>
      refine ⟨_, OrderedMap.get_set_self, fun old hold => ?_⟩
      cases hold
      rfl

theorem get_appended_of_ne (directory : Directory) {name key : String} (h : key ≠ name)
    (bytes : List UInt8) : (appended directory name bytes).get key = directory.get key := by
  unfold appended
  cases directory.get name with
  | none => exact OrderedMap.get_set_of_ne h
  | some file => exact OrderedMap.get_set_of_ne h

theorem appended_complete (h : Complete parse start s) (name : String) (bytes : List UInt8) :
    Complete parse start { s with directory := appended s.directory name bytes } := by
  refine ⟨fun key offset hget => ?_, h.started, h.absent, h.last⟩
  obtain ⟨file, first, hfile, hbegun, hfirst, hoffset, hle, hcollected⟩ := h.entries key offset hget
  by_cases hkey : key = name
  · subst hkey
    obtain ⟨grown, hgrown, hbytes⟩ := get_appended_self s.directory key bytes
    have hmore := hbytes file hfile
    refine ⟨grown, first, hgrown, hbegun, ?_, ?_, hle, ?_⟩
    · rw [hmore]
      exact hfirst.append bytes
    · rw [hmore]
      exact hoffset.append bytes
    · rw [hmore, between_grow hoffset.1]
      exact hcollected
  · exact ⟨file, first, (get_appended_of_ne s.directory hkey bytes).trans hfile, hbegun, hfirst,
      hoffset, hle, hcollected⟩

theorem step_complete {s t : Paging ρ} {action : Action} (h : Complete parse start s)
    (hPageable : Pageable parse most s action) (hStep : step parse most s action = some t) :
    Complete parse start t := by
  cases action with
  | append name bytes =>
      cases hStep
      exact appended_complete h name bytes
  | call =>
      cases hStep
      exact called_complete h hPageable

/-- The page of a call would say that there is more. -/
def AnswersMore (parse : List Char → Option (Parsed ρ)) (most : Nat) (s : Paging ρ) : Action → Prop
  | .append _ _ => True
  | .call => ∃ page, readLogsSince parse most s.directory s.cursor = some page ∧ page.more = true

/-- Calls that say that there is more come to an end while nothing is appended. -/
theorem calls_bounded (h : Complete parse start s) (n : Nat)
    (hMeets : Machine.Meets (step parse most) (fun s a => Pageable parse most s a ∧ AnswersMore parse most s a) s
      (List.replicate n .call)) : n ≤ left s.directory s.cursor := by
  induction n generalizing s with
  | zero => exact Nat.zero_le _
  | succ n ih =>
      obtain ⟨⟨hPageable, page, hpage, hmore⟩, hrest⟩ := hMeets
      rw [readLogsSince_eq h.valid hPageable] at hpage
      cases hpage
      have hless := called_progress h.valid hPageable hmore
      have hbound := ih (called_complete h hPageable) hrest
      rw [called_eq h.valid hPageable] at hbound
      exact Nat.lt_of_le_of_lt hbound hless

/-- A client that pages gets of each file the complete lines after its entry, each once and in
order, its entries stay starts of lines, each call that says that there is more goes on, and such
calls come to an end, in every run in which the budget of each call reaches a line's end where it
has to and no more records of a file than a call takes arguments. -/
theorem paging_complete {directory : Directory} {actions : List Action} {s : Paging ρ}
    (hStart : ∀ name offset, start.get name = some offset →
      ∃ file, directory.get name = some file ∧ Boundary file.bytes offset)
    (hRun : Machine.run (step parse most) (opened directory start) actions = some s)
    (hMeets : Machine.Meets (step parse most) (Pageable parse most) (opened directory start) actions) :
    Complete parse start s ∧ ∀ n, Machine.Meets (step parse most)
      (fun s a => Pageable parse most s a ∧ AnswersMore parse most s a) s (List.replicate n .call) →
        n ≤ left s.directory s.cursor := by
  have h : Complete parse start s :=
    Machine.invariant_run_meets (P := Complete parse start)
      (fun _ _ _ h hCond hStep => step_complete h hCond hStep)
      (complete_opened hStart) hRun hMeets
  exact ⟨h, calls_bounded h⟩

/-! ## Runs that page -/

instance decidableStartsLines (cursor : HostedLogsCursor) :
    ∀ (budget : Nat) (entries : List (String × LogFile)),
      Decidable (StartsLines cursor budget entries)
  | _, [] => isTrue trivial
  | budget, entry :: entries =>
      have := decidableStartsLines cursor (budget - unread cursor entry) entries
      inferInstanceAs (Decidable (_ ∧ _))

instance decidableReachesLine (cursor : HostedLogsCursor) :
    ∀ (budget : Nat) (entries : List (String × LogFile)),
      Decidable (ReachesLine cursor budget entries)
  | _, [] => isFalse id
  | budget, entry :: entries =>
      have := decidableReachesLine cursor (budget - unread cursor entry) entries
      inferInstanceAs (Decidable (_ ∨ _))

instance decidableFewRecords (cursor : HostedLogsCursor) :
    ∀ (budget : Nat) (entries : List (String × LogFile)),
      Decidable (FewRecords parse most cursor budget entries)
  | _, [] => isTrue trivial
  | budget, entry :: entries =>
      have := decidableFewRecords cursor (budget - unread cursor entry) entries
      inferInstanceAs (Decidable (_ ∧ _))

instance (s : Paging ρ) (action : Action) : Decidable (Pageable parse most s action) := by
  cases action <;> unfold Pageable <;> infer_instance

def oneEntry (name : String) (offset : Nat) : HostedLogsCursor := OrderedMap.empty.set name offset

theorem get_oneEntry {name key : String} {offset found : Nat}
    (h : (oneEntry name offset).get key = some found) : key = name ∧ found = offset := by
  by_cases hkey : key = name
  · subst hkey
    rw [oneEntry, OrderedMap.get_set_self] at h
    exact ⟨rfl, (Option.some.inj h).symm⟩
  · rw [oneEntry, OrderedMap.get_set_of_ne hkey] at h
    cases h

def oneFile (name : String) (bytes : List UInt8) : Directory :=
  OrderedMap.empty.set name ⟨bytes, none⟩

/-- The bytes of a line that holds only `a`. -/
def lineOf (length : Nat) : List UInt8 := List.replicate length 0x61 ++ [Utf8.newline]

/-- A line is read, half of another one and a new file come, and the other half after a call. -/
def pagedTwice : List Action :=
  [.call, .append "device.ndjson" [0x61], .append "app.ndjson" (lineOf 2), .call,
    .append "device.ndjson" [Utf8.newline], .call]

/-- Lines that are `aa` are records. -/
def parseTwo (text : List Char) : Option (Parsed Unit) :=
  if text = ['a', 'a'] then some (.object ()) else none

theorem paging_complete_pagedTwice : ∃ s : Paging Unit,
    Machine.run (step parseTwo 125000)
        (opened (oneFile "device.ndjson" (lineOf 2 ++ lineOf 3)) (oneEntry "device.ndjson" 3))
        pagedTwice = some s ∧
      s.cursor.get "device.ndjson" = some 9 ∧
      Complete parseTwo (oneEntry "device.ndjson" 3) s := by
  refine ⟨_, rfl, by decide +kernel, (paging_complete (fun name offset h => ?_)
    (show Machine.run (step parseTwo 125000) (opened (oneFile "device.ndjson" (lineOf 2 ++ lineOf 3))
      (oneEntry "device.ndjson" 3)) pagedTwice = some _ from rfl) (by decide +kernel)).1⟩
  obtain ⟨rfl, rfl⟩ := get_oneEntry h
  exact ⟨_, OrderedMap.get_set_self, by decide⟩

/-- A line that is longer than a page. -/
def longLine : List UInt8 := lineOf (HOSTED_LOGS_PAGE_BYTES + 1)

theorem length_longLine : longLine.length = HOSTED_LOGS_PAGE_BYTES + 2 := by
  rw [longLine, lineOf, List.length_append, List.length_replicate, List.length_singleton]

theorem through_reached_longLine :
    Lines.through Utf8.newline (reached longLine (some 0) HOSTED_LOGS_PAGE_BYTES) = [] := by
  refine Lines.through_of_not_mem fun hmem => ?_
  have hreached : reached longLine (some 0) HOSTED_LOGS_PAGE_BYTES =
      List.replicate HOSTED_LOGS_PAGE_BYTES 0x61 := by
    rw [reached, startOf, Option.getD_some, List.drop_zero, length_longLine,
      Nat.min_eq_left (by omega), longLine, lineOf,
      List.take_append_of_le_length (by rw [List.length_replicate]; omega), List.take_replicate,
      Nat.min_eq_left (by omega)]
  rw [hreached] at hmem
  exact absurd (List.eq_of_mem_replicate hmem) (by decide)

/-- The page that begins with such a line is empty, and says that there is more. -/
theorem readFiles_longLine :
    (readFiles parse most (oneEntry "device.ndjson" 0) HOSTED_LOGS_PAGE_BYTES
      (logFiles (oneFile "device.ndjson" longLine))).map
        (fun page => (page.name, page.offset, page.more)) = [("device.ndjson", 0, true)] := by
  have hentry : Valid (oneEntry "device.ndjson" 0) ("device.ndjson", ⟨longLine, none⟩) :=
    fun offset hget => (get_oneEntry hget).2 ▸ ⟨Nat.zero_le _, Or.inl rfl⟩
  have hget : (oneEntry "device.ndjson" 0).get "device.ndjson" = some 0 := OrderedMap.get_set_self
  have hvalid : ∀ offset ∈ some 0, Boundary longLine offset := hget ▸ hentry
  show List.map _ (readFiles parse most _ _ [("device.ndjson", ⟨longLine, none⟩)]) = _
  rw [readFiles_cons hentry, readFiles, hget,
    readCurrent_eq HOSTED_LOGS_PAGE_BYTES hvalid (Or.inl rfl), through_reached_longLine]
  simp only [List.map_cons, List.map_nil, startOf, Option.getD_some, List.length_nil,
    length_longLine]
  simp

theorem joined_of_pages {offset : Nat} {more : Bool}
    (h : pages.map (fun page => (page.name, page.offset, page.more)) = [(name, offset, more)]) :
    (joined pages).more = more ∧ (joined pages).cursor = oneEntry name offset := by
  obtain ⟨page, rfl, hpage⟩ := List.map_eq_singleton_iff.mp h
  cases hpage
  exact ⟨by simp [joined], rfl⟩

theorem not_paging_complete_longLine : ¬ ∀ (directory : Directory) (start : HostedLogsCursor)
    (actions : List Action) (s : Paging Unit),
    (∀ name offset, start.get name = some offset →
      ∃ file, directory.get name = some file ∧ Boundary file.bytes offset) →
      Machine.run (step parseTwo 125000) (opened directory start) actions = some s →
      Complete parseTwo start s := by
  intro h
  have hcomplete := h (oneFile "device.ndjson" longLine) (oneEntry "device.ndjson" 0) [.call] _
    (fun name offset hget => by
      obtain ⟨rfl, rfl⟩ := get_oneEntry hget
      exact ⟨_, OrderedMap.get_set_self, Nat.zero_le _, Or.inl rfl⟩) rfl
  have hprogress := (callComplete_called hcomplete).progress
  obtain ⟨hmore, hcursor⟩ := joined_of_pages (@readFiles_longLine _ parseTwo 125000)
  dsimp only [opened, pageOf] at hprogress
  obtain ⟨name, offset, hafter, hadvance⟩ := hprogress hmore
  rw [hcursor] at hafter
  exact Nat.lt_irrefl _ (hadvance offset hafter)

end Stim.Logs.HostedLogs
