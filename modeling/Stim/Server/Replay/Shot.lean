import Stim.Server.Replay
import Stim.Server.Recording.Footage
import Mathlib.Data.List.TakeWhile
import Mathlib.Data.Rat.Cast.Order

/-!
# What a seek shows, and what follows

A seek sends the units from the last keyframe at or before its time through the latest unit at or
before it, exactly when the segment it chooses holds a unit and no later one holds a unit that
early.  The units that playback goes on with are the next ones in the directory.
-/

namespace Stim.Server

variable {α : Type} {p : α → Bool}

theorem takeWhile_eq_filter_of_pairwise {list : List α}
    (h : list.Pairwise fun a b => p b = true → p a = true) : list.takeWhile p = list.filter p := by
  induction list with
  | nil => rfl
  | cons a list ih =>
      obtain ⟨hhead, htail⟩ := List.pairwise_cons.mp h
      by_cases ha : p a = true
      · rw [List.takeWhile_cons_of_pos ha, List.filter_cons_of_pos ha, ih htail]
      · rw [List.takeWhile_cons_of_neg ha, List.filter_cons_of_neg ha, eq_comm,
          List.filter_eq_nil_iff]
        exact fun b hmem hb => ha (hhead b hmem hb)

theorem drop_takeWhile_of_le {list : List α} {n : Nat} (h : n ≤ (list.takeWhile p).length) :
    (list.takeWhile p).drop n = (list.drop n).takeWhile p := by
  induction list generalizing n with
  | nil => simp
  | cons a list ih =>
      cases n with
      | zero => rfl
      | succ n =>
          by_cases ha : p a = true
          · rw [List.takeWhile_cons_of_pos ha] at h ⊢
            exact ih (by simpa using h)
          · rw [List.takeWhile_cons_of_neg ha] at h
            simp at h

/-! ## The segments of a directory -/

/-- The footage of listed segments. -/
def footageOf (segments : List SegmentFile) : Footage :=
  segments.map fun file => (file.start, readUnits file)

theorem units_footageOf (segments : List SegmentFile) :
    (footageOf segments).units = segments.flatMap readUnits := by
  simp [footageOf, Footage.units, List.flatMap_map]

variable {segments : List SegmentFile} {front back : Footage} {start : Nat}
  {list units : List AccessUnit} {next : Nat}

/-- A segment of the footage is a file of the list. -/
theorem footageOf_split (h : footageOf segments = front ++ (start, units) :: back) :
    ∃ before file after, segments = before ++ file :: after ∧ footageOf before = front ∧
      file.start = start ∧ readUnits file = units ∧ footageOf after = back := by
  obtain ⟨before, others, rfl, hfront, hothers⟩ := List.map_eq_append_iff.mp h
  obtain ⟨file, after, rfl, hfile, hback⟩ := List.map_eq_cons_iff.mp hothers
  cases hfile
  exact ⟨before, file, after, rfl, hfront, rfl, rfl, hback⟩

variable {file : SegmentFile} {before after : List SegmentFile}

theorem starts_of_split (hord : (footageOf segments).Ordered)
    (hsplit : segments = before ++ file :: after) :
    (∀ other ∈ before, other.start < file.start) ∧ ∀ other ∈ after, file.start < other.start := by
  have hstarts := List.pairwise_map.mp hord.starts
  rw [hsplit] at hstarts
  obtain ⟨-, htail, hcross⟩ := List.pairwise_append.mp hstarts
  exact ⟨fun other hmem => (hcross other hmem file List.mem_cons_self).1,
    fun other hmem => ((List.pairwise_cons.mp htail).1 other hmem).1⟩

/-- A segment is found by its start, and the one after it by a later start. -/
theorem find_of_split (hord : (footageOf segments).Ordered)
    (hsplit : segments = before ++ file :: after) :
    segments.find? (fun other => decide (other.start = file.start)) = some file ∧
      segments.find? (fun other => decide (file.start < other.start)) = after.head? := by
  obtain ⟨hbefore, hafter⟩ := starts_of_split hord hsplit
  subst hsplit
  constructor
  · rw [List.find?_append, List.find?_eq_none.mpr, Option.none_or, List.find?_cons_of_pos]
    · exact decide_eq_true rfl
    · intro other hmem
      have := hbefore other hmem
      simp only [decide_eq_true_eq]
      omega
  · rw [List.find?_append, List.find?_eq_none.mpr, Option.none_or, List.find?_cons_of_neg]
    · cases after with
      | nil => rfl
      | cons other after =>
          exact List.find?_cons_of_pos (decide_eq_true (hafter other List.mem_cons_self))
    · simp
    · intro other hmem
      have := hbefore other hmem
      simp only [decide_eq_true_eq]
      omega

/-- Where playback goes on: the units before the next one are those before it so far. -/
def Advance.Follows (segments : List SegmentFile) (upTo : List AccessUnit) : Advance → Prop
  | .ended => segments.flatMap readUnits = upTo
  | .plays segment list next => ∃ (front : Footage) (units : List AccessUnit) (back : Footage),
      footageOf segments = front ++ (segment, units) :: back ∧ list <+: units ∧
        next < list.length ∧ front.units ++ units.take next = upTo

theorem advance_follows (hord : (footageOf segments).Ordered) {fuel : Nat}
    (hsplit : footageOf segments = front ++ (start, units) :: back) (hfuel : back.length < fuel)
    (hlist : list <+: units) (hnext : next ≤ list.length) :
    ∃ result, advance fuel segments start list next = some result ∧
      result.Follows segments (front.units ++ units.take next) := by
  induction fuel generalizing front start units back list next with
  | zero => omega
  | succ fuel ih =>
      unfold advance
      split_ifs with hknown
      · exact ⟨_, rfl, front, units, back, hsplit, hlist, hknown, rfl⟩
      · -- the list is used up: the segment is read again
        have hlength : next = list.length := by omega
        obtain ⟨before, file, after, hsegments, rfl, rfl, rfl, rfl⟩ := footageOf_split hsplit
        obtain ⟨hcurrent, hfollowing⟩ := find_of_split hord hsegments
        have hreread : (segments.find? fun other => decide (other.start = file.start)).map
            readUnits = some (readUnits file) := by rw [hcurrent]; rfl
        dsimp only
        rw [hreread, hfollowing, Option.getD_some]
        split_ifs with hgrown
        · exact ⟨_, rfl, _, _, _, hsplit, List.prefix_rfl, hlength ▸ hgrown, rfl⟩
        · have hall : list = readUnits file := hlist.eq_of_length_le (by omega)
          have htake : (readUnits file).take next = readUnits file := by
            rw [hlength, hall]
            exact List.take_length
          rw [htake]
          cases after with
          | nil =>
              refine ⟨_, rfl, ?_⟩
              rw [hsegments, Advance.Follows, List.flatMap_append, units_footageOf]
              simp
          | cons following after =>
              have hnextSplit : footageOf segments =
                  (footageOf before ++ [(file.start, readUnits file)]) ++
                    (following.start, readUnits following) :: footageOf after := by
                rw [hsegments]
                simp [footageOf]
              obtain ⟨result, hresult, hfollows⟩ := ih hnextSplit
                (by simp [footageOf] at hfuel ⊢; omega) (List.prefix_rfl) (Nat.zero_le _)
              refine ⟨result, hresult, ?_⟩
              have hunits : Footage.units (footageOf before ++ [(file.start, readUnits file)]) ++
                  (readUnits following).take 0 =
                  (footageOf before).units ++ readUnits file := by
                simp [Footage.units]
              rwa [hunits] at hfollows

/-! ## Keyframes -/

theorem lastKeyframe_eq_none : lastKeyframe units = none ↔ ∀ unit ∈ units, unit.keyframe = false := by
  induction units with
  | nil => simp [lastKeyframe]
  | cons unit units ih =>
      rw [lastKeyframe, List.forall_mem_cons, ← ih]
      cases lastKeyframe units with
      | some index => simp
      | none => cases unit.keyframe <;> simp

theorem lastKeyframe_eq_some {index : Nat} (h : lastKeyframe units = some index) :
    ∃ unit rest, units.drop index = unit :: rest ∧ unit.keyframe = true ∧
      ∀ later ∈ rest, later.keyframe = false := by
  induction units generalizing index with
  | nil => cases h
  | cons unit units ih =>
      rw [lastKeyframe] at h
      cases hlast : lastKeyframe units with
      | some later =>
          rw [hlast] at h
          cases h
          exact ih hlast
      | none =>
          simp only [hlast] at h
          split_ifs at h with hkeyframe
          cases h
          exact ⟨unit, units, rfl, hkeyframe, lastKeyframe_eq_none.mp hlast⟩

/-! ## What a seek shows -/

/-- The units from the last keyframe at or before a time through the latest unit at or before
it. -/
structure Shows (units : List AccessUnit) (time : ℚ) (burst : List AccessUnit) : Prop where
  upTo : burst <:+ units.filter fun unit => decide ((unit.capturedAt : ℚ) ≤ time)
  keyframe : ∃ first rest, burst = first :: rest ∧ first.keyframe = true ∧
    ∀ unit ∈ rest, unit.keyframe = false

/-- A shot is a run of a segment's units, from a keyframe. -/
structure Shot.Within (shot : Shot) (segments : List SegmentFile) : Prop where
  split : ∃ (front : Footage) (units : List AccessUnit) (back : Footage),
    footageOf segments = front ++ (shot.segment, units) :: back ∧ shot.units <+: units
  next : shot.next ≤ shot.units.length
  keyframe : ∃ unit rest, shot.slice = unit :: rest ∧ unit.keyframe = true

variable {time : ℚ}

theorem mem_of_segmentAt {segment : SegmentFile} (h : segmentAt segments time = some segment) :
    segment ∈ segments := by
  unfold segmentAt at h
  cases hfind : segments.find? fun segment => decide (time ≤ segment.end_) with
  | some found =>
      rw [hfind] at h
      cases h
      exact List.mem_of_find?_eq_some hfind
  | none =>
      rw [hfind] at h
      exact List.mem_of_getLast? h

variable {unit : AccessUnit}

theorem slice_of_drop {shot : Shot} {rest : List AccessUnit}
    (hdrop : shot.units.drop shot.first = unit :: rest) (hnext : shot.first < shot.next) :
    ∃ more, shot.slice = unit :: more := by
  rw [Shot.slice, List.drop_take, hdrop]
  obtain ⟨count, hcount⟩ : ∃ count, shot.next - shot.first = count + 1 :=
    ⟨shot.next - shot.first - 1, by omega⟩
  rw [hcount]
  exact ⟨rest.take count, rfl⟩

theorem shotAt_within {shot : Shot} (h : shotAt segments time = some shot) :
    shot.Within segments := by
  unfold shotAt at h
  cases hsegment : segmentAt segments time with
  | none => simp [hsegment] at h
  | some segment =>
      simp only [hsegment] at h
      generalize hknown : (readUnits segment).takeWhile _ = known at h
      obtain ⟨first, hfirst, unit, rest, hdrop, hkeyframe⟩ : ∃ first,
          (lastKeyframe known).or ((readUnits segment).findIdx? AccessUnit.keyframe) = some first ∧
          ∃ unit rest, (readUnits segment).drop first = unit :: rest ∧ unit.keyframe = true := by
        cases hlast : lastKeyframe known with
        | some first =>
            obtain ⟨unit, rest, hdrop, hkeyframe, -⟩ := lastKeyframe_eq_some hlast
            refine ⟨first, rfl, ?_⟩
            obtain ⟨more, hmore⟩ : known <+: readUnits segment :=
              hknown ▸ List.takeWhile_prefix _
            refine ⟨unit, rest ++ more, ?_, hkeyframe⟩
            have hle : first ≤ known.length := by
              by_contra hgt
              rw [List.drop_eq_nil_of_le (by omega)] at hdrop
              cases hdrop
            rw [← hmore, List.drop_append_of_le_length hle, hdrop]
            rfl
        | none =>
            rw [hlast] at h
            cases hfind : (readUnits segment).findIdx? AccessUnit.keyframe with
            | none => simp [hfind] at h
            | some first =>
                obtain ⟨hlt, hkeyframe, -⟩ := List.findIdx?_eq_some_iff_getElem.mp hfind
                exact ⟨first, rfl, _, _, List.drop_eq_getElem_cons hlt, hkeyframe⟩
      simp only [hfirst, Option.some.injEq] at h
      subst h
      obtain ⟨before, after, hsplit⟩ := List.append_of_mem (mem_of_segmentAt hsegment)
      refine ⟨⟨footageOf before, readUnits segment, footageOf after, ?_, List.prefix_rfl⟩, ?_, ?_⟩
      · rw [hsplit]
        simp [footageOf]
      · have hlt : first < (readUnits segment).length := by
          by_contra hge
          rw [List.drop_eq_nil_of_le (by omega)] at hdrop
          cases hdrop
        have htake : (((readUnits segment).drop (first + 1)).takeWhile fun unit =>
            decide ((unit.capturedAt : ℚ) ≤ max time segment.start)).length ≤
            ((readUnits segment).drop (first + 1)).length := (List.takeWhile_prefix _).length_le
        rw [List.length_drop] at htake
        dsimp only
        omega
      · obtain ⟨more, hmore⟩ := @slice_of_drop unit ⟨segment.start, readUnits segment, first, _⟩
          rest hdrop (show first < first + 1 + _ by omega)
        exact ⟨unit, more, hmore, hkeyframe⟩

/-- Whether a segment ends before a time. -/
def endsBefore (time : ℚ) (segment : SegmentFile) : Bool := (segment.end_ : ℚ) < time

/-- The segment that a seek into recorded time chooses holds a unit, if an earlier one does, and
no later segment holds a unit at or before the time. -/
def ClearAt (segments : List SegmentFile) (time : ℚ) : Prop :=
  match segments.dropWhile (endsBefore time) with
  | [] => True
  | found :: later => (found.start : ℚ) ≤ time →
      (readUnits found ≠ [] ∨ ∀ file ∈ segments.takeWhile (endsBefore time), readUnits file = []) ∧
        ∀ file ∈ later, ∀ unit ∈ (readUnits file).head?, time < unit.capturedAt

instance (segments : List SegmentFile) (time : ℚ) : Decidable (ClearAt segments time) :=
  match hfound : segments.dropWhile (endsBefore time) with
  | [] => isTrue (by unfold ClearAt; rw [hfound]; trivial)
  | found :: later => decidable_of_iff
      ((found.start : ℚ) ≤ time →
        (readUnits found ≠ [] ∨
          ∀ file ∈ segments.takeWhile (endsBefore time), readUnits file = []) ∧
        ∀ file ∈ later, ∀ unit ∈ (readUnits file).head?, time < unit.capturedAt)
      (by unfold ClearAt; rw [hfound])

/-- A seek into recorded time shows the frame there. -/
def Seek.Right (seek : Seek) : Prop :=
  (∃ file ∈ seek.segments, (file.start : ℚ) ≤ seek.time ∧ seek.time ≤ file.end_) →
  (∃ unit ∈ seek.segments.flatMap readUnits, (unit.capturedAt : ℚ) ≤ seek.time) →
  ∃ shot, seek.shot = some shot ∧
    Shows (seek.segments.flatMap readUnits) seek.time shot.slice ∧
    shot.shown = ((seek.segments.flatMap readUnits).filter fun unit =>
      decide ((unit.capturedAt : ℚ) ≤ seek.time)).getLast?.map AccessUnit.capturedAt

theorem find_of_dropWhile {list rest : List α} {a : α} (h : list.dropWhile p = a :: rest) :
    p a = false ∧ list.find? (fun b => !p b) = some a := by
  induction list with
  | nil => cases h
  | cons b list ih =>
      by_cases hb : p b = true
      · rw [List.dropWhile_cons_of_pos hb] at h
        obtain ⟨ha, hfind⟩ := ih h
        exact ⟨ha, by rw [List.find?_cons_of_neg (by simp [hb]), hfind]⟩
      · rw [List.dropWhile_cons_of_neg hb] at h
        cases h
        exact ⟨by simpa using hb, List.find?_cons_of_pos (by simpa using hb)⟩

variable {found : SegmentFile}

theorem segmentAt_of_dropWhile {later : List SegmentFile}
    (h : segments.dropWhile (endsBefore time) = found :: later) :
    segmentAt segments time = some found := by
  obtain ⟨-, hfind⟩ := find_of_dropWhile h
  have hsame : (fun segment : SegmentFile => decide (time ≤ segment.end_)) =
      fun segment => !endsBefore time segment := by
    funext segment
    simp only [endsBefore, ← decide_not, not_lt]
  rw [segmentAt, hsame, hfind]
  rfl

/-- Units of one segment are ascending. -/
theorem ascending_of_split (hord : (footageOf segments).Ordered) (hmem : file ∈ segments) :
    (readUnits file).Pairwise fun a b => a.capturedAt < b.capturedAt :=
  hord.ascending _ (List.mem_map_of_mem hmem)

theorem head_of_mem (hord : (footageOf segments).Ordered) (hmem : file ∈ segments)
    {rest : List AccessUnit} (hcons : readUnits file = unit :: rest) :
    unit.keyframe = true ∧ unit.capturedAt = file.start :=
  hord.head _ (List.mem_map_of_mem hmem) unit rest hcons

/-- No unit of a segment comes before its start. -/
theorem start_le (hord : (footageOf segments).Ordered) (hmem : file ∈ segments)
    (hunit : unit ∈ readUnits file) : file.start ≤ unit.capturedAt := by
  have hascending := ascending_of_split hord hmem
  cases hcons : readUnits file with
  | nil => simp [hcons] at hunit
  | cons first rest =>
      rw [hcons] at hunit hascending
      have hfirst := (head_of_mem hord hmem hcons).2
      rcases List.mem_cons.mp hunit with rfl | hlater
      · exact hfirst.ge
      · exact hfirst.ge.trans ((List.pairwise_cons.mp hascending).1 unit hlater).le

theorem before_of_split (hord : (footageOf segments).Ordered)
    (hsplit : segments = before ++ file :: after) {other : SegmentFile} (hmem : other ∈ before)
    (hunit : unit ∈ readUnits other) : unit.capturedAt < file.start := by
  have hstarts := List.pairwise_map.mp hord.starts
  rw [hsplit] at hstarts
  exact ((List.pairwise_append.mp hstarts).2.2 other hmem file List.mem_cons_self).2 unit hunit

/-- The units of a segment up to a time are its first ones. -/
theorem takeWhile_readUnits (hord : (footageOf segments).Ordered) (hmem : file ∈ segments)
    (time : ℚ) :
    ((readUnits file).takeWhile fun unit => decide ((unit.capturedAt : ℚ) ≤ time)) =
      (readUnits file).filter fun unit => decide ((unit.capturedAt : ℚ) ≤ time) := by
  refine takeWhile_eq_filter_of_pairwise ((ascending_of_split hord hmem).imp ?_)
  intro a b hlt hb
  have hlt : (a.capturedAt : ℚ) < b.capturedAt := by exact_mod_cast hlt
  have hb : (b.capturedAt : ℚ) ≤ time := of_decide_eq_true hb
  exact decide_eq_true (hlt.le.trans hb)

/-- From a segment that holds a unit at or before the time, the seek sends those through the
latest one. -/
theorem shotAt_of_found (hord : (footageOf segments).Ordered) {later : List SegmentFile}
    (hfound : segments.dropWhile (endsBefore time) = found :: later)
    (hstart : (found.start : ℚ) ≤ time) (hsome : readUnits found ≠ []) :
    ∃ shot, shotAt segments time = some shot ∧ ∃ first rest, shot.slice = first :: rest ∧
      first.keyframe = true ∧ (∀ unit ∈ rest, unit.keyframe = false) ∧
      shot.slice <:+ (readUnits found).filter fun unit =>
        decide ((unit.capturedAt : ℚ) ≤ time) := by
  have hmem : found ∈ segments := mem_of_segmentAt (segmentAt_of_dropWhile hfound)
  have htarget : max time (found.start : ℚ) = time := max_eq_left hstart
  have hfilter := takeWhile_readUnits hord hmem time
  generalize hknown : ((readUnits found).takeWhile fun unit =>
    decide ((unit.capturedAt : ℚ) ≤ time)) = known at hfilter
  -- the segment's first unit is a keyframe at or before the time
  obtain ⟨head, tail, hcons⟩ := List.exists_cons_of_ne_nil hsome
  obtain ⟨hkeyframe, hhead⟩ := head_of_mem hord hmem hcons
  obtain ⟨first, hfirst⟩ : ∃ first, lastKeyframe known = some first := by
    cases hlast : lastKeyframe known with
    | some first => exact ⟨first, rfl⟩
    | none =>
        have hin : head ∈ known := by
          rw [← hknown, hcons, List.takeWhile_cons_of_pos (by simpa [hhead] using hstart)]
          exact List.mem_cons_self
        rw [lastKeyframe_eq_none.mp hlast head hin] at hkeyframe
        cases hkeyframe
  obtain ⟨unit, rest, hdrop, hkey, hrest⟩ := lastKeyframe_eq_some hfirst
  have hlt : first < known.length := by
    by_contra hge
    rw [List.drop_eq_nil_of_le (by omega)] at hdrop
    cases hdrop
  have hafter : ((readUnits found).drop (first + 1)).takeWhile
      (fun unit => decide ((unit.capturedAt : ℚ) ≤ time)) = known.drop (first + 1) := by
    rw [← hknown, drop_takeWhile_of_le (by rw [hknown]; omega)]
  have hshot : shotAt segments time =
      some ⟨found.start, readUnits found, first, known.length⟩ := by
    unfold shotAt
    simp only [segmentAt_of_dropWhile hfound, htarget, hknown, hfirst, Option.some_or, hafter,
      List.length_drop]
    rw [show first + 1 + (known.length - (first + 1)) = known.length by omega]
  have hslice : (Shot.mk found.start (readUnits found) first known.length).slice =
      unit :: rest := by
    rw [Shot.slice, ← hdrop]
    congr 1
    obtain ⟨more, hmore⟩ : known <+: readUnits found := hknown ▸ List.takeWhile_prefix _
    rw [← hmore]
    exact List.take_left
  refine ⟨_, hshot, unit, rest, hslice, hkey, hrest, ?_⟩
  rw [hslice, ← hdrop, ← hfilter]
  exact List.drop_suffix _ _

theorem filter_of_split {before later : List SegmentFile} :
    ((before ++ found :: later).flatMap readUnits).filter
      (fun unit => decide ((unit.capturedAt : ℚ) ≤ time)) =
    (before.flatMap readUnits).filter (fun unit => decide ((unit.capturedAt : ℚ) ≤ time)) ++
      ((readUnits found).filter (fun unit => decide ((unit.capturedAt : ℚ) ≤ time)) ++
      (later.flatMap readUnits).filter fun unit => decide ((unit.capturedAt : ℚ) ≤ time)) := by
  rw [List.flatMap_append, List.flatMap_cons, List.filter_append, List.filter_append]

/-- A seek shows the right frame where its time is clear. -/
theorem right_of_clear (hord : (footageOf segments).Ordered) (hclear : ClearAt segments time) :
    (Seek.mk time segments (shotAt segments time)).Right := by
  rintro ⟨file, hfile, hstart, hend⟩ ⟨early, hearly, hle⟩
  cases hfound : segments.dropWhile (endsBefore time) with
  | nil =>
      -- every segment ends before the time, so it lies in none
      have := List.dropWhile_eq_nil_iff.mp hfound file hfile
      simp only [endsBefore, decide_eq_true_eq] at this
      exact absurd hend (not_le.mpr this)
  | cons found later =>
      have hsplit : segments = segments.takeWhile (endsBefore time) ++ found :: later := by
        rw [← hfound, List.takeWhile_append_dropWhile]
      have hfoundStart : (found.start : ℚ) ≤ time := by
        obtain ⟨-, hafter⟩ := starts_of_split hord hsplit
        rw [hsplit] at hfile
        rcases List.mem_append.mp hfile with hbefore | hrest
        · have := List.mem_takeWhile_imp hbefore
          simp only [endsBefore, decide_eq_true_eq] at this
          exact absurd hend (not_le.mpr this)
        · rcases List.mem_cons.mp hrest with rfl | hlater
          · exact hstart
          · have hlt : (found.start : ℚ) < file.start := by exact_mod_cast hafter file hlater
            exact hlt.le.trans hstart
      unfold ClearAt at hclear
      rw [hfound] at hclear
      obtain ⟨hholds, hlater⟩ := hclear hfoundStart
      have hnone : (later.flatMap readUnits).filter
          (fun unit => decide ((unit.capturedAt : ℚ) ≤ time)) = [] := by
        refine List.filter_eq_nil_iff.mpr ?_
        intro unit hmem
        obtain ⟨file, hfile, hunit⟩ := List.mem_flatMap.mp hmem
        have hin : file ∈ segments := by
          rw [hsplit]
          exact List.mem_append_right _ (List.mem_cons_of_mem _ hfile)
        obtain ⟨head, rest, hcons⟩ := List.exists_cons_of_ne_nil (List.ne_nil_of_mem hunit)
        have hhead := hlater file hfile head (by rw [hcons]; rfl)
        rw [(head_of_mem hord hin hcons).2] at hhead
        have hge : (file.start : ℚ) ≤ unit.capturedAt := by exact_mod_cast start_le hord hin hunit
        simpa using hhead.trans_le hge
      have hsome : readUnits found ≠ [] := by
        rcases hholds with hsome | hempty
        · exact hsome
        · rintro hnil
          have hin : early ∈ (segments.flatMap readUnits).filter
              fun unit => decide ((unit.capturedAt : ℚ) ≤ time) :=
            List.mem_filter.mpr ⟨hearly, decide_eq_true hle⟩
          rw [hsplit, filter_of_split, hnil, hnone] at hin
          have hbefore : (segments.takeWhile (endsBefore time)).flatMap readUnits = [] :=
            List.flatMap_eq_nil_iff.mpr hempty
          rw [hbefore] at hin
          cases hin
      obtain ⟨shot, hshot, first, rest, hslice, hkey, hrest, hsuffix⟩ :=
        shotAt_of_found hord hfound hfoundStart hsome
      have hupTo : shot.slice <:+ (segments.flatMap readUnits).filter
          fun unit => decide ((unit.capturedAt : ℚ) ≤ time) := by
        rw [hsplit, filter_of_split, hnone, List.append_nil]
        exact hsuffix.trans (List.suffix_append _ _)
      refine ⟨shot, hshot, ⟨hupTo, first, rest, hslice, hkey, hrest⟩, ?_⟩
      obtain ⟨front, hfront⟩ := hupTo
      rw [Shot.shown, ← hfront, List.getLast?_append_of_ne_nil]
      rw [hslice]
      exact List.cons_ne_nil _ _

/-- What a shot shows is of the segment that the seek chose. -/
theorem slice_subset {shot : Shot} (hfound : segmentAt segments time = some found)
    (hshot : shotAt segments time = some shot) : shot.slice ⊆ readUnits found := by
  unfold shotAt at hshot
  simp only [hfound] at hshot
  cases hfirst : (lastKeyframe ((readUnits found).takeWhile fun unit =>
      decide ((unit.capturedAt : ℚ) ≤ max time found.start))).or
      ((readUnits found).findIdx? AccessUnit.keyframe) with
  | none =>
      rw [hfirst] at hshot
      cases hshot
  | some first =>
      simp only [hfirst, Option.some.injEq] at hshot
      subst hshot
      exact fun unit hmem => List.mem_of_mem_take (List.mem_of_mem_drop hmem)

/-- A seek that shows the right frame was at a clear time. -/
theorem clear_of_right (hord : (footageOf segments).Ordered)
    (hright : (Seek.mk time segments (shotAt segments time)).Right) : ClearAt segments time := by
  unfold ClearAt
  cases hfound : segments.dropWhile (endsBefore time) with
  | nil => trivial
  | cons found later =>
      intro hstart
      have hsplit : segments = segments.takeWhile (endsBefore time) ++ found :: later := by
        rw [← hfound, List.takeWhile_append_dropWhile]
      have hmem : found ∈ segments := by
        rw [hsplit]
        exact List.mem_append_right _ List.mem_cons_self
      have hend : time ≤ found.end_ := by
        simpa [endsBefore] using (find_of_dropWhile hfound).1
      -- what the seek shows ends with the latest unit, and is of the segment found
      have hlatest : ∀ unit ∈ segments.flatMap readUnits, (unit.capturedAt : ℚ) ≤ time →
          ∃ last ∈ readUnits found, ((segments.flatMap readUnits).filter fun unit =>
            decide ((unit.capturedAt : ℚ) ≤ time)).getLast? = some last := by
        intro unit hunit hle
        obtain ⟨shot, hshot, hshows, -⟩ :=
          hright ⟨found, hmem, hstart, hend⟩ ⟨unit, hunit, hle⟩
        obtain ⟨front, hfront⟩ := hshows.upTo
        obtain ⟨first, rest, hslice, -⟩ := hshows.keyframe
        have hne : shot.slice ≠ [] := by
          rw [hslice]
          exact List.cons_ne_nil _ _
        refine ⟨shot.slice.getLast hne,
          slice_subset (segmentAt_of_dropWhile hfound) hshot (List.getLast_mem hne), ?_⟩
        rw [← hfront, List.getLast?_append_of_ne_nil _ hne, List.getLast?_eq_some_getLast hne]
      constructor
      · by_contra hneither
        obtain ⟨hnil, hsome⟩ := not_or.mp hneither
        have hnil : readUnits found = [] := not_not.mp hnil
        obtain ⟨file, hfile, hunits⟩ : ∃ file ∈ segments.takeWhile (endsBefore time),
            readUnits file ≠ [] := by simpa using hsome
        obtain ⟨unit, rest, hcons⟩ := List.exists_cons_of_ne_nil hunits
        have hin : unit ∈ readUnits file := hcons ▸ List.mem_cons_self
        have hlt : (unit.capturedAt : ℚ) < found.start := by
          exact_mod_cast before_of_split hord hsplit hfile hin
        have hall : unit ∈ segments.flatMap readUnits := by
          rw [hsplit]
          exact List.mem_flatMap.mpr ⟨file, List.mem_append_left _ hfile, hin⟩
        obtain ⟨last, hlast, -⟩ := hlatest unit hall (hlt.le.trans hstart)
        rw [hnil] at hlast
        cases hlast
      · intro file hfile unit hhead
        by_contra hle
        have hle : (unit.capturedAt : ℚ) ≤ time := not_lt.mp hle
        have hfileMem : file ∈ segments := by
          rw [hsplit]
          exact List.mem_append_right _ (List.mem_cons_of_mem _ hfile)
        have hin : unit ∈ readUnits file := List.mem_of_mem_head? hhead
        have hall : unit ∈ segments.flatMap readUnits :=
          List.mem_flatMap.mpr ⟨file, hfileMem, hin⟩
        obtain ⟨last, hlastMem, hlast⟩ := hlatest unit hall hle
        -- the unit is not before the last one, which is of an earlier segment
        obtain ⟨front, back, rfl⟩ := List.append_of_mem hfile
        have hsplit' : segments =
            (segments.takeWhile (endsBefore time) ++ found :: front) ++ file :: back := by
          rw [List.append_assoc]
          exact hsplit
        have hbefore : last.capturedAt < file.start :=
          before_of_split hord hsplit' (List.mem_append_right _ List.mem_cons_self) hlastMem
        have hunit := start_le hord hfileMem hin
        have hnot : last ∈ ((front ++ file :: back).flatMap readUnits).filter
            fun unit => decide ((unit.capturedAt : ℚ) ≤ time) := by
          rw [hsplit, filter_of_split, ← List.append_assoc, List.getLast?_append_of_ne_nil] at hlast
          · exact List.mem_of_getLast? hlast
          · refine List.ne_nil_of_mem (List.mem_filter.mpr ⟨?_, decide_eq_true hle⟩)
            exact List.mem_flatMap.mpr ⟨file, hfile, hin⟩
        obtain ⟨other, hother, hlastIn⟩ := List.mem_flatMap.mp (List.mem_filter.mp hnot).1
        have hotherMem : other ∈ segments := by
          rw [hsplit]
          exact List.mem_append_right _ (List.mem_cons_of_mem _ hother)
        have hfoundLt := (starts_of_split hord hsplit).2 other hother
        have hge := start_le hord hotherMem hlastIn
        obtain ⟨before, after, hagain⟩ := List.append_of_mem hother
        have hsplit'' : segments =
            (segments.takeWhile (endsBefore time) ++ found :: before) ++ other :: after := by
          rw [List.append_assoc, List.cons_append, ← hagain]
          exact hsplit
        have hlt : last.capturedAt < other.start :=
          before_of_split hord hsplit'' (List.mem_append_right _ List.mem_cons_self) hlastMem
        omega

/-- A seek shows the right frame exactly at the clear times. -/
theorem right_iff_clear (hord : (footageOf segments).Ordered) (time : ℚ) :
    (Seek.mk time segments (shotAt segments time)).Right ↔ ClearAt segments time :=
  ⟨clear_of_right hord, right_of_clear hord⟩

end Stim.Server
