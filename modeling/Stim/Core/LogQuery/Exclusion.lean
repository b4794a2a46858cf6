import Stim.Core.LogQuery

/-!
# What a query excludes matches nothing

The window of every record that may match starts at one of the times whose least
`lowestWindowStart` takes, so a record up to that time is in no window.
-/

namespace Stim.Logs

/-- The record's time is at most `maxTs`, or it has none and `maxTs` is infinite. -/
def UpTo (maxTs : Double) (record : NdjsonRecord) : Prop :=
  match tsOf record with
  | some ts => (Double.finite ts).le maxTs = true
  | none => maxTs = .infinity

namespace Double

theorem lt_of_le_of_lt {ts : Rat} {a b : Double} (hLe : (finite ts).le a = true)
    (hLt : a.lt b = true) : (finite ts).lt b = true := by
  cases a <;> cases b <;> simp_all [le, lt]
  exact hLe.trans_lt hLt

theorem le_finite {ts start : Rat} {a : Double} (hLe : (finite ts).le a = true)
    (hStart : a.le (finite start) = true) : ts ≤ start := by
  cases a <;> simp_all [le]
  exact hLe.trans hStart

end Double

namespace LogQuery

theorem le_of_lowest {starts : List Rat} {least start : Rat} (h : lowest starts = some least)
    (hMem : start ∈ starts) : least ≤ start := by
  cases starts with
  | nil => cases h
  | cons first rest =>
      have hFold : ∀ (rest : List Rat) (first : Rat),
          rest.foldl min first ≤ first ∧ ∀ start ∈ rest, rest.foldl min first ≤ start := by
        intro rest
        induction rest with
        | nil => exact fun first => ⟨le_refl first, fun _ h => by cases h⟩
        | cons next rest ih =>
            intro first
            obtain ⟨hHead, hRest⟩ := ih (min first next)
            refine ⟨hHead.trans (min_le_left _ _), fun start hStart => ?_⟩
            rcases List.mem_cons.mp hStart with rfl | hLater
            · exact hHead.trans (min_le_right _ _)
            · exact hRest start hLater
      cases h
      rcases List.mem_cons.mp hMem with rfl | hRest
      · exact (hFold rest start).1
      · exact (hFold rest first).2 start hRest

variable {query : LogQuery} {record : NdjsonRecord} {starts : List Rat} {slots : List JsonValue}

theorem mem_slotStarts : ∀ {slots : List JsonValue} {starts : List Rat},
    query.slotStarts slots = some starts → ∀ slot ∈ slots,
      ∃ start ∈ starts, query.slotMarkers.get slot = some start := by
  intro slots
  induction slots with
  | nil => exact fun _ slot hSlot => by cases hSlot
  | cons first rest ih =>
      intro starts h slot hSlot
      unfold slotStarts at h ih
      rw [List.mapM_cons] at h
      obtain ⟨start, hFirst, hMore⟩ := Option.bind_eq_some_iff.mp h
      obtain ⟨more, hRest, hEq⟩ := Option.bind_eq_some_iff.mp hMore
      cases hEq
      rcases List.mem_cons.mp hSlot with rfl | hLater
      · exact ⟨start, List.mem_cons_self .., hFirst⟩
      · obtain ⟨found, hFound, hGet⟩ := ih hRest slot hLater
        exact ⟨found, List.mem_cons_of_mem _ hFound, hGet⟩

/-- What `errorsOnly` takes from a plan whose window start is known. -/
structure Excludes (query : LogQuery) (slots : Option (List JsonValue)) (least : Rat) : Prop where
  errorsOnly : query.criteria.errorsOnly = true
  pages : ∀ ts, query.pageLoadTs = some ts → least ≤ ts - 1
  slots : ∃ starts, query.slotTimes slots = some starts ∧ ∀ start ∈ starts, least ≤ start
  launches : ∃ starts, query.launchTimes = some starts ∧ ∀ start ∈ starts, least ≤ start

variable {least : Rat}

theorem excludes_of_lowestWindowStart {slots : Option (List JsonValue)}
    (h : query.lowestWindowStart slots = some least) : Excludes query slots least := by
  unfold lowestWindowStart at h
  split at h
  · cases h
  · rename_i hErrors
    obtain ⟨slotTimes, hSlots, hMore⟩ := Option.bind_eq_some_iff.mp h
    obtain ⟨launchTimes, hLaunches, hLowest⟩ := Option.bind_eq_some_iff.mp hMore
    refine ⟨by simpa using hErrors, ?_, ⟨slotTimes, hSlots, ?_⟩, ⟨launchTimes, hLaunches, ?_⟩⟩
    · intro ts hTs
      exact le_of_lowest hLowest (by simp [hTs])
    · exact fun start hStart => le_of_lowest hLowest (by simp [hStart])
    · exact fun start hStart => le_of_lowest hLowest (by simp [hStart])

theorem fromSources_cases (h : fromSources record query.criteria = true) (hSome : query.kinds ≠ []) :
    (∃ src, record.src = some (.str src) ∧ src ∈ query.kinds) ∨
      query.criteria.includeAppDeviceErrors = true ∧ isAppDeviceRecord record = true := by
  unfold fromSources at h
  split at h
  · rename_i hNone
    exact absurd (by rw [kinds, hNone]; rfl) hSome
  · rename_i hNil
    exact absurd (by rw [kinds, hNil]; rfl) hSome
  · rename_i sources hNotNil hSources
    have hKinds : query.kinds = sources := by
      rw [kinds, hSources]
      rfl
    rcases Bool.or_eq_true_iff.mp h with hListed | hApp
    · cases hText : text record.src with
      | none =>
          rw [hText] at hListed
          cases hListed
      | some src =>
          rw [hText] at hListed
          refine .inl ⟨src, text_eq_some hText, ?_⟩
          rw [hKinds]
          exact List.contains_iff_mem.mp hListed
    · exact .inr (Bool.and_eq_true_iff.mp hApp)

/-- The window of a record that belongs to a slot's launch. -/
theorem slotMarkers_ge {slots : Option (List JsonValue)} (h : Excludes query slots least)
    (hSources : fromSources record query.criteria = true) (hSome : query.kinds ≠ [])
    (hMetro : isMetro record = false) (hClient : isClient record = false)
    (hTimeline : inTimeline query.criteria.slot query.slotLaunched record = true)
    (hSlots : ∀ all, slots = some all → slotOf record ∈ all) :
    ∃ start, query.slotMarkers.get (slotOf record) = some start ∧ least ≤ start := by
  obtain ⟨starts, hStarts, hLeast⟩ := h.slots
  have hAsked : (query.criteria.includeAppDeviceErrors ||
      query.kinds.any fun src => src != "metro" && src != "client") = true := by
    rcases fromSources_cases hSources hSome with ⟨src, hSrc, hKind⟩ | ⟨hApp, -⟩
    · have hNotMetro : src ≠ "metro" := by
        rintro rfl
        rw [isMetro, hSrc] at hMetro
        cases hMetro
      have hNotClient : src ≠ "client" := by
        rintro rfl
        rw [isClient, hSrc] at hClient
        cases hClient
      rw [Bool.or_eq_true, List.any_eq_true]
      exact .inr ⟨src, hKind, by simp [hNotMetro, hNotClient]⟩
    · rw [hApp, Bool.true_or]
  unfold slotTimes at hStarts
  rw [if_pos hAsked] at hStarts
  split at hStarts
  · rename_i slot hSlot
    have hOf : slotOf record = .str slot := by
      rw [inTimeline, hSlot] at hTimeline
      simpa [isSharedRecord, hMetro, hClient] using hTimeline
    obtain ⟨start, hStart, hGet⟩ := mem_slotStarts hStarts (.str slot) (List.mem_singleton_self _)
    exact ⟨start, by rw [hOf, hGet], hLeast start hStart⟩
  · obtain ⟨all, hAll, hMap⟩ := Option.bind_eq_some_iff.mp hStarts
    obtain ⟨start, hStart, hGet⟩ := mem_slotStarts hMap _ (hSlots all hAll)
    exact ⟨start, hGet, hLeast start hStart⟩

/-- The window of a record of Metro or the client. -/
theorem launches_ge {slots : Option (List JsonValue)} (h : Excludes query slots least)
    (hSources : fromSources record query.criteria = true) (hSome : query.kinds ≠ [])
    (hShared : isMetro record = true ∨ isClient record = true) (platform : Option String) :
    ∃ start, (platform.bind fun platform => query.launches.get (some platform)).or
      query.criteria.markerTs = some start ∧ least ≤ start := by
  obtain ⟨starts, hStarts, hLeast⟩ := h.launches
  have hAsked : (query.kinds.contains "metro" || query.kinds.contains "client") = true := by
    rcases fromSources_cases hSources hSome with ⟨src, hSrc, hKind⟩ | ⟨-, hApp⟩
    · rw [isMetro, isClient, hSrc] at hShared
      rcases hShared with hMetro | hClient
      · have hEq : src = "metro" := by simpa using hMetro
        simp [hEq ▸ hKind]
      · have hEq : src = "client" := by simpa using hClient
        simp [hEq ▸ hKind]
    · -- an app's device record is neither
      have hDevice : record.src = some (.str "device") :=
        eq_of_beq (Bool.and_eq_true_iff.mp hApp).1
      rw [isMetro, isClient, hDevice] at hShared
      exact absurd hShared (by decide)
  unfold launchTimes at hStarts
  rw [if_pos hAsked] at hStarts
  obtain ⟨markerTs, hMarker, rfl⟩ := Option.map_eq_some_iff.mp hStarts
  cases hGet : platform.bind fun platform => query.launches.get (some platform) with
  | none => exact ⟨markerTs, hMarker, hLeast markerTs (List.mem_cons_self ..)⟩
  | some start =>
      obtain ⟨name, -, hLaunch⟩ := Option.bind_eq_some_iff.mp hGet
      have hEntry := OrderedMap.get_eq_some_iff.mp hLaunch
      exact ⟨start, rfl, hLeast start (List.mem_cons_of_mem _ (List.mem_map_of_mem hEntry))⟩

/-- The window of every record that may match starts at the least time or later. -/
theorem windowStart_ge {slots : Option (List JsonValue)} (h : Excludes query slots least)
    (hSources : fromSources record query.criteria = true) (hSome : query.kinds ≠ [])
    (hTimeline : inTimeline query.criteria.slot query.slotLaunched record = true)
    (hSlots : ∀ all, slots = some all → slotOf record ∈ all) :
    ∃ start, query.windowStart record = some start ∧ least ≤ start := by
  unfold windowStart
  split
  · rename_i ts hPage _
    exact ⟨ts - 1, rfl, h.pages ts hPage⟩
  · split
    · rename_i hOther
      obtain ⟨hMetro, hClient⟩ := Bool.and_eq_true_iff.mp hOther
      exact slotMarkers_ge h hSources hSome (by simpa using hMetro) (by simpa using hClient)
        hTimeline hSlots
    · rename_i hShared
      refine launches_ge h hSources hSome ?_ _
      by_contra hNot
      rw [not_or] at hNot
      exact hShared (by simp [hNot.1, hNot.2])

end LogQuery

theorem map_eq_ok {α β : Type} {x : Except String α} {f : α → β} {b : β} (h : x.map f = .ok b) :
    ∃ a, x = .ok a ∧ f a = b := by
  cases x with
  | error message => cases h
  | ok a => exact ⟨a, rfl, Except.ok.inj h⟩

theorem bind_eq_ok {α β : Type} {x : Except String α} {f : α → Except String β} {b : β}
    (h : x.bind f = .ok b) : ∃ a, x = .ok a ∧ f a = .ok b := by
  cases x with
  | error message => cases h
  | ok a => exact ⟨a, rfl, h⟩

/-- Criteria for errors ask for the sources given or those of errors. -/
theorem sources_buildCriteria {options : LogQueryOptions} {markerTs bundleTs : Option Rat}
    {criteria : QueryCriteria} (h : buildCriteria options markerTs bundleTs = .ok criteria)
    (hErrors : criteria.errorsOnly = true) : criteria.sources.getD [] ≠ [] := by
  obtain ⟨sinceTs, -, hMap⟩ := bind_eq_ok h
  obtain ⟨grep, -, rfl⟩ := map_eq_ok hMap
  have hAsked : options.errorsOnly = true := hErrors
  dsimp only
  rw [hAsked, if_pos rfl]
  cases hGiven : options.sources.filter fun sources => !sources.isEmpty with
  | none => decide
  | some sources =>
      have hSome := (Option.filter_eq_some_iff.mp hGiven).2
      intro hNil
      have hEmpty : sources = [] := hNil
      rw [hEmpty] at hSome
      cases hSome

/-- A plan for errors asks for some sources. -/
theorem kinds_ne_nil {runtime : Runtime} {markers : List NdjsonRecord} {options : LogQueryOptions}
    {query : LogQuery} (h : planLogQuery runtime markers options = .ok query)
    (hErrors : query.criteria.errorsOnly = true) : query.kinds ≠ [] := by
  obtain ⟨criteria, hCriteria, rfl⟩ := map_eq_ok h
  exact sources_buildCriteria hCriteria hErrors

/-- A query matches no record that it excludes by its time. -/
theorem excludesUpTo_sound {runtime : Runtime} {markers : List NdjsonRecord}
    {options : LogQueryOptions} {query : LogQuery} {maxTs : Double}
    {slots : Option (List JsonValue)} {record : NdjsonRecord}
    (hPlan : planLogQuery runtime markers options = .ok query)
    (hExcluded : query.excludesUpTo maxTs slots = true)
    (hSlots : ∀ all, slots = some all → slotOf record ∈ all) (hTime : UpTo maxTs record) :
    query.isMatch record = false := by
  by_contra hNot
  have hMatch := eq_true_of_ne_false hNot
  simp only [LogQuery.isMatch, recordMatches, Bool.and_eq_true] at hMatch
  obtain ⟨⟨hTimeline, -⟩, ⟨⟨⟨⟨-, hSources⟩, -⟩, hCurrent⟩, hSince⟩, -⟩ := hMatch
  rcases Bool.or_eq_true_iff.mp hExcluded with hEarly | hStart
  · -- the record's time is before the one asked for
    cases hFrom : query.criteria.sinceTs with
    | none =>
        rw [hFrom] at hEarly
        cases hEarly
    | some sinceTs =>
        rw [hFrom] at hEarly
        have hLt : maxTs.lt sinceTs = true := hEarly
        cases hTs : tsOf record with
        | none =>
            simp only [hFrom, hTs] at hSince
            cases hSince
        | some ts =>
            rw [UpTo, hTs] at hTime
            simp [hFrom, hTs, Double.lt_of_le_of_lt hTime hLt] at hSince
  · cases hLowest : query.lowestWindowStart slots with
    | none =>
        rw [hLowest] at hStart
        cases hStart
    | some least =>
        rw [hLowest] at hStart
        have hLe : maxTs.le (.finite least) = true := hStart
        have hExcludes := LogQuery.excludes_of_lowestWindowStart hLowest
        have hKinds := kinds_ne_nil hPlan hExcludes.errorsOnly
        obtain ⟨start, hWindow, hLeast⟩ :=
          LogQuery.windowStart_ge hExcludes hSources hKinds hTimeline hSlots
        -- a current error is after the start of its window
        simp only [hExcludes.errorsOnly, Bool.not_true, Bool.false_or, isCurrentError, hWindow,
          Bool.and_eq_true] at hCurrent
        obtain ⟨⟨-, hAfter⟩, -⟩ := hCurrent
        cases hTs : tsOf record with
        | none =>
            rw [hTs] at hAfter
            cases hAfter
        | some ts =>
            rw [UpTo, hTs] at hTime
            rw [hTs] at hAfter
            have hLate : start < ts := of_decide_eq_true hAfter
            have hUpTo : ts ≤ least := Double.le_finite hTime hLe
            exact absurd (hUpTo.trans hLeast) (not_le.mpr hLate)

/-! ### A launch at 100 -/

def launchMarker : NdjsonRecord :=
  .ofList [("ts", .num 100), ("src", .str "device"), ("marker", .bool true), ("platform", .str "ios"),
    ("msg", .str "launched")]

def buildError (ts : Rat) : NdjsonRecord :=
  .ofList [("ts", .num ts), ("src", .str "build"), ("level", .str "error"), ("msg", .str "failed")]

def errorsOptions : LogQueryOptions := ⟨none, none, none, none, none, true, .finite 200⟩

def plainRuntime : Runtime := ⟨fun _ => "", String.toLower⟩

theorem excludesUpTo_sound_launch :
    ∃ query, planLogQuery plainRuntime [launchMarker] errorsOptions = .ok query ∧
      query.isMatch (buildError 50) = false ∧ query.isMatch (buildError 150) = true := by
  have hPlan : ∃ query, planLogQuery plainRuntime [launchMarker] errorsOptions = .ok query ∧
      query.excludesUpTo (.finite 60) (some [.str "default"]) = true ∧
        query.isMatch (buildError 150) = true := ⟨_, rfl, by decide +kernel, by decide +kernel⟩
  obtain ⟨query, hQuery, hExcluded, hLater⟩ := hPlan
  refine ⟨query, hQuery, excludesUpTo_sound hQuery hExcluded ?_ ?_, hLater⟩
  · rintro all ⟨⟩
    decide +kernel
  · show (Double.finite 50).le (.finite 60) = true
    decide +kernel

end Stim.Logs
