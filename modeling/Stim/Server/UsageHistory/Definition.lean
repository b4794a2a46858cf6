import Mathlib.Data.List.Induction
import Stim.Server.UsageHistory.Held

/-!
# The usage history is its definition

Each operation on the tracks of a recorder is, for every key, the operation on the series of that
key.  So a report lists the series and shows the readings that the calls define.
-/

namespace Stim.UsageHistory

/-! ## What a payload says of a series -/

section payload

variable {ν : Type} (numbers : Numbers ν)

/-- The sum of an environment's owners, and `none` where there is none. -/
def environmentReading (payload : Payload ν) (workspace : JsString) : Option (Reading ν) :=
  ((payload.getD []).filter fun owner => decide (truthy owner.workspace = some workspace)).foldl
    (fun sum owner =>
      let sum := sum.getD ⟨numbers.zero, numbers.zero⟩
      some ⟨numbers.add sum.cpuPercent owner.cpuPercent, numbers.add sum.memoryMb owner.memoryMb⟩)
    none

/-- The last owner that is a device. -/
def deviceReading (payload : Payload ν) (device : DeviceKey) : Option (Reading ν) :=
  ((payload.getD []).reverse.find? fun owner =>
    decide (owner.kind ≠ .other ∧ owner.kind = device.1 ∧ truthy owner.id = some device.2)).map
    MachineOwner.reading

/-- The reading that a track takes of a key. -/
def entryReading {κ μ : Type} [DecidableEq κ] (entries : List (Entry κ μ ν)) (key : κ) :
    Option (Reading ν) :=
  (entries.reverse.find? fun entry => decide (entry.1 = key)).map fun entry => entry.2.2

theorem get_foldl_addOwner (owners : List (MachineOwner ν)) (workspace : JsString) :
    ∀ sums : OrderedMap JsString (Reading ν),
      (owners.foldl (addOwner numbers) sums).get workspace =
        (owners.filter fun owner => decide (truthy owner.workspace = some workspace)).foldl
          (fun sum owner =>
            let sum := sum.getD ⟨numbers.zero, numbers.zero⟩
            some ⟨numbers.add sum.cpuPercent owner.cpuPercent,
              numbers.add sum.memoryMb owner.memoryMb⟩)
          (sums.get workspace) := by
  induction owners with
  | nil => intro sums; rfl
  | cons owner rest ih =>
      intro sums
      rw [List.foldl_cons, ih]
      by_cases hOwner : truthy owner.workspace = some workspace
      · rw [List.filter_cons_of_pos (by simpa using hOwner), List.foldl_cons]
        congr 1
        simp [addOwner, hOwner, OrderedMap.get_set_self]
      · rw [List.filter_cons_of_neg (by simpa using hOwner)]
        congr 1
        unfold addOwner
        split
        · rfl
        · rename_i other hOther
          refine OrderedMap.get_set_of_ne ?_
          rintro rfl
          exact hOwner hOther

theorem entryReading_environmentEntries (payload : Payload ν) (workspace : JsString) :
    entryReading (environmentEntries numbers payload) workspace =
      environmentReading numbers payload workspace := by
  unfold entryReading environmentEntries environmentReading
  rw [← List.map_reverse, List.find?_map, Option.map_map]
  exact (OrderedMap.find?_reverse_entries _ workspace).trans
    (get_foldl_addOwner numbers _ workspace _)

theorem entryReading_deviceEntries (payload : Payload ν) (device : DeviceKey) :
    entryReading (deviceEntries payload) device = deviceReading payload device := by
  unfold entryReading deviceEntries deviceReading
  rw [← List.filterMap_reverse]
  induction (payload.getD []).reverse with
  | nil => rfl
  | cons owner rest ih =>
      cases hEntry : deviceEntry owner with
      | none =>
          rw [List.filterMap_cons_none hEntry, ih, List.find?_cons_of_neg]
          -- an owner that is no device is not the one looked for
          simp only [decide_eq_true_eq, not_and]
          intro hKind _ hId
          simp [deviceEntry, hKind, hId] at hEntry
      | some entry =>
          rw [List.filterMap_cons_some hEntry]
          obtain ⟨hKind, id, hId, rfl⟩ : owner.kind ≠ .other ∧ ∃ id, truthy owner.id = some id ∧
              ((owner.kind, id), (⟨owner.workspace, truthy owner.slot⟩ : DeviceMeta),
                owner.reading) = entry := by
            unfold deviceEntry at hEntry
            split at hEntry
            · cases hEntry
            · rename_i hKind
              exact ⟨hKind, Option.map_eq_some_iff.mp hEntry⟩
          by_cases hDevice : (owner.kind, id) = device
          · subst hDevice
            rw [List.find?_cons_of_pos (by simp), List.find?_cons_of_pos (by simp [hKind, hId])]
            rfl
          · rw [List.find?_cons_of_neg (by simpa using hDevice), ih, List.find?_cons_of_neg]
            simp only [decide_eq_true_eq, not_and]
            intro _ hSame hName
            refine hDevice (Prod.ext hSame ?_)
            rw [hId] at hName
            exact Option.some.inj hName

end payload

/-! ## The series of a key -/

section track

variable {κ μ ν : Type} [DecidableEq κ]

/-- What a track keeps of the series of a key. -/
def Track.seriesOf (track : Track κ μ ν) (key : κ) : Series (Reading ν) where
  slots slot := (track.series.get key).bind fun kept => kept.2.get slot
  live := decide (key ∈ track.live)

theorem seriesOf_pause (track : Track κ μ ν) (key : κ) :
    track.pause.seriesOf key = (track.seriesOf key).pause := by
  simp [Track.seriesOf, Track.pause, Series.pause]

theorem get_trim (lastSlot last : Int) (live : Bool) (slots : Slots ν) (slot : Int) :
    (trim lastSlot last live slots).get slot =
      if slot ≤ last - POINTS && !(live && slot == lastSlot) then none else slots.get slot := by
  unfold trim
  rw [OrderedMap.get_filterMap]
  split
  · exact Option.bind_fun_none _
  · exact Option.bind_fun_some _

theorem seriesOf_prune (track : Track κ μ ν) (lastSlot last : Int) (key : κ) :
    (track.prune lastSlot last).seriesOf key = (track.seriesOf key).prune lastSlot last := by
  unfold Track.seriesOf Series.prune
  congr 1
  funext slot
  unfold Track.prune
  rw [OrderedMap.get_filterMap, Option.bind_assoc]
  cases hKept : track.series.get key with
  | none => simp
  | some kept =>
      simp only [Option.bind_some]
      rw [← get_trim lastSlot last _ kept.2 slot]
      split
      · -- a series that goes has no slot left
        rename_i hEmpty
        rw [Option.bind_none, OrderedMap.get, List.isEmpty_iff.mp hEmpty]
        rfl
      · rfl

theorem mem_slotsTo {first last slot : Int} :
    slot ∈ slotsTo first last ↔ first ≤ slot ∧ slot ≤ last := by
  unfold slotsTo
  rw [List.mem_map]
  constructor
  · rintro ⟨i, hMem, rfl⟩
    have hLt := List.mem_range.mp hMem
    omega
  · rintro ⟨hFirst, hLast⟩
    exact ⟨(slot - first).toNat, List.mem_range.mpr (by omega), by omega⟩

theorem get_foldl_set_slots (reading : Reading ν) (slot : Int) (each : List Int) :
    ∀ slots : Slots ν, (each.foldl (fun slots each => slots.set each reading) slots).get slot =
      if slot ∈ each then some reading else slots.get slot := by
  induction each with
  | nil => intro slots; simp
  | cons first rest ih =>
      intro slots
      rw [List.foldl_cons, ih, OrderedMap.get_set]
      by_cases hRest : slot ∈ rest
      · simp [hRest]
      · simp [hRest]

theorem seriesOf_holdThrough (track : Track κ μ ν) (lastSlot last : Int) (key : κ) (slot : Int) :
    ((track.holdThrough lastSlot last).seriesOf key).slots slot =
      (track.seriesOf key).heldThrough lastSlot last slot := by
  unfold Track.seriesOf Series.heldThrough Track.holdThrough
  dsimp only
  rw [OrderedMap.get_filterMap, Option.bind_assoc]
  cases hKept : track.series.get key with
  | none => simp
  | some kept =>
      simp only [Option.bind_some]
      by_cases hLive : key ∈ track.live
      · unfold hold
        cases hReading : kept.2.get lastSlot with
        | none => simp [hLive]
        | some reading => simp [hLive, get_foldl_set_slots, mem_slotsTo]
      · simp [hLive]

theorem seriesOf_put (track : Track κ μ ν) (slot : Int) (entry : Entry κ μ ν) (key : κ) :
    (track.put slot entry).seriesOf key =
      if entry.1 = key then
        ⟨fun each => if each = slot then some entry.2.2 else (track.seriesOf key).slots each, true⟩
      else track.seriesOf key := by
  unfold Track.seriesOf Track.put
  split
  · rename_i hKey
    subst hKey
    simp only [OrderedMap.get_set_self, Option.bind_some, OrderedMap.get_set]
    cases hKept : track.series.get entry.1 with
    | none => simp [OrderedMap.get, OrderedMap.empty]
    | some kept => simp
  · rename_i hKey
    simp [OrderedMap.get_set_of_ne (Ne.symm hKey), Ne.symm hKey]

/-- A payload's series, put one after another: the last reading of a key stays. -/
theorem seriesOf_foldl_put (slot : Int) (key : κ) (entries : List (Entry κ μ ν)) :
    ∀ track : Track κ μ ν, (entries.foldl (Track.put slot) track).seriesOf key =
      ⟨fun each => if each = slot then
          (entryReading entries key).or ((track.seriesOf key).slots each)
        else (track.seriesOf key).slots each,
        (entryReading entries key).isSome || (track.seriesOf key).live⟩ := by
  induction entries with
  | nil => intro track; simp [entryReading]
  | cons entry rest ih =>
      intro track
      have hReading : entryReading (entry :: rest) key =
          (entryReading rest key).or (if entry.1 = key then some entry.2.2 else none) := by
        unfold entryReading
        rw [List.reverse_cons, List.find?_append, Option.map_or]
        by_cases hKey : entry.1 = key
        · simp [hKey]
        · simp [hKey]
      rw [List.foldl_cons, ih, seriesOf_put, hReading]
      by_cases hKey : entry.1 = key
      · simp only [hKey, if_true, Series.mk.injEq]
        constructor
        · funext each
          split
          · cases entryReading rest key with
            | none => rfl
            | some reading => rfl
          · rfl
        · cases entryReading rest key with
          | none => rfl
          | some reading => rfl
      · simp [hKey]

theorem seriesOf_record (track : Track κ μ ν) (lastSlot slot : Int)
    (entries : List (Entry κ μ ν)) (key : κ) :
    (track.record lastSlot slot entries).seriesOf key =
      (track.seriesOf key).record lastSlot slot (entryReading entries key) := by
  unfold Track.record Series.record Series.put
  rw [seriesOf_prune, seriesOf_foldl_put, seriesOf_pause]
  simp only [Series.pause, seriesOf_holdThrough, Bool.or_false]

/-! ## Reports -/

theorem mem_keys_report (numbers : Numbers ν) (track : Track κ μ ν) (lastSlot last : Int)
    (key : κ) :
    key ∈ ((track.prune lastSlot last).report numbers lastSlot last).keys ↔
      ∃ slot reading,
        ((track.seriesOf key).prune lastSlot last).slots slot = some reading := by
  rw [← seriesOf_prune, ← OrderedMap.get_isSome_iff, Track.report, OrderedMap.get_filterMap]
  unfold Track.seriesOf
  cases hKept : (track.prune lastSlot last).series.get key with
  | none => simp
  | some kept =>
      refine iff_of_true rfl ?_
      -- pruning left the series, so one of its slots
      have hPruned := hKept
      unfold Track.prune at hPruned
      rw [OrderedMap.get_filterMap] at hPruned
      obtain ⟨before, -, hTrimmed⟩ := Option.bind_eq_some_iff.mp hPruned
      dsimp only at hTrimmed
      split at hTrimmed
      · cases hTrimmed
      · rename_i hSlots
        cases hTrimmed
        obtain ⟨⟨slot, reading⟩, rest, hEntries⟩ :=
          List.exists_cons_of_ne_nil (mt List.isEmpty_iff.mpr hSlots)
        refine ⟨slot, reading, ?_⟩
        dsimp only [Option.bind_some]
        exact OrderedMap.get_eq_some_iff.mpr (hEntries ▸ List.mem_cons_self)

theorem get_report (numbers : Numbers ν) (track : Track κ μ ν) (lastSlot last : Int) (key : κ) :
    (track.report numbers lastSlot last).get key =
      (track.series.get key).map fun kept => (kept.1, points numbers
        ((slotsTo (last - POINTS + 1) last).map ((track.seriesOf key).reported lastSlot))) := by
  unfold Track.report
  rw [OrderedMap.get_filterMap]
  cases hKept : track.series.get key with
  | none => rfl
  | some kept =>
      have hReported : reported lastSlot (decide (key ∈ track.live)) kept.2 =
          (track.seriesOf key).reported lastSlot := by
        funext slot
        simp [reported, Series.reported, Track.seriesOf, hKept]
      rw [Option.bind_some, Option.map_some, ← hReported]

/-- A report agrees with what defines the readings of its series: it lists those with a reading in
a slot of the window, and shows for each slot that reading, rounded, or nothing. -/
structure Describes (numbers : Numbers ν) (reads : κ → Int → Reading ν → Prop) (last : Int)
    (report : OrderedMap κ (μ × UsageSeries ν)) : Prop where
  listed : ∀ key, key ∈ report.keys ↔
    ∃ slot reading, last - POINTS < slot ∧ slot ≤ last ∧ reads key slot reading
  shown : ∀ key info shown, report.get key = some (info, shown) →
    ∃ readingIn : Int → Option (Reading ν),
      (∀ slot reading, last - POINTS < slot → slot ≤ last →
        (readingIn slot = some reading ↔ reads key slot reading)) ∧
      shown = points numbers ((slotsTo (last - POINTS + 1) last).map readingIn)

theorem Describes.not_reads_of_nil {numbers : Numbers ν} {reads : κ → Int → Reading ν → Prop}
    {last : Int} {report : OrderedMap κ (μ × UsageSeries ν)}
    (h : Describes numbers reads last report) (hNil : report.entries = []) {key : κ} {slot : Int}
    {reading : Reading ν} (hWindow : last - POINTS < slot) (hSlot : slot ≤ last) :
    ¬ reads key slot reading := by
  intro hReads
  have hListed := (h.listed key).mpr ⟨slot, reading, hWindow, hSlot, hReads⟩
  simp [OrderedMap.keys, hNil] at hListed

theorem describes_report (numbers : Numbers ν) {track : Track κ μ ν} {lastSlot clock last : Int}
    {samples : κ → List (Sample (Reading ν))}
    (hHeld : ∀ key, Held (samples key) (track.seriesOf key) lastSlot clock) (hLast : clock ≤ last) :
    Describes numbers (fun key => Reads (samples key)) last
      ((track.prune lastSlot last).report numbers lastSlot last) where
  listed := by
    intro key
    rw [mem_keys_report]
    exact (hHeld key).listed hLast
  shown := by
    intro key info shown hGet
    rw [get_report] at hGet
    obtain ⟨kept, -, hShown⟩ := Option.map_eq_some_iff.mp hGet
    cases hShown
    refine ⟨_, ?_, rfl⟩
    intro slot reading hWindow _
    rw [seriesOf_prune]
    exact (hHeld key).reported hLast hWindow

end track

/-! ## Runs -/

section run

variable {ν : Type} (numbers : Numbers ν)

def Call.time : Call ν → Option Nat
  | .record _ time => some time
  | .pause => none
  | .history now => some now

/-- What a call says of a series, from the series' reading in a payload. -/
def Call.sample (readingOf : Payload ν → Option (Reading ν)) : Call ν → Sample (Reading ν)
  | .record payload time => .payload (slotOf time) (readingOf payload)
  | .pause => .pause
  | .history now => .look (slotOf now)

def environmentSamples (calls : List (Call ν)) (workspace : JsString) :
    List (Sample (Reading ν)) :=
  calls.map (Call.sample fun payload => environmentReading numbers payload workspace)

def deviceSamples (calls : List (Call ν)) (device : DeviceKey) : List (Sample (Reading ν)) :=
  calls.map (Call.sample fun payload => deviceReading payload device)

/-- The times of the calls, and of a last one, do not decrease. -/
def Chronological (calls : List (Call ν)) (now : Nat) : Prop :=
  (calls.filterMap Call.time ++ [now]).Pairwise (· ≤ ·)

theorem slotOf_le {earlier later : Nat} (h : earlier ≤ later) : slotOf earlier ≤ slotOf later :=
  Int.ofNat_le.mpr (Nat.div_le_div_right h)

/-- The calls up to one with a time are in order up to that time, and it is before what follows. -/
theorem Chronological.of_append {calls : List (Call ν)} {call : Call ν} {now time : Nat}
    (h : Chronological (calls ++ [call]) now) (hTime : call.time = some time) :
    Chronological calls time ∧ time ≤ now := by
  unfold Chronological at h ⊢
  rw [List.filterMap_append, List.filterMap_cons_some hTime, List.filterMap_nil] at h
  exact ⟨(List.pairwise_append.mp h).1,
    (List.pairwise_append.mp h).2.2 time (by simp) now (by simp)⟩

/-- After every run each series is held as its samples define. -/
theorem held_run (calls : List (Call ν)) :
    ∀ now, Chronological calls now →
      (∀ workspace, Held (environmentSamples numbers calls workspace)
        ((UsageRecorder.run numbers calls).environments.seriesOf workspace)
        (UsageRecorder.run numbers calls).lastSlot (slotOf now)) ∧
      ∀ device, Held (deviceSamples calls device)
        ((UsageRecorder.run numbers calls).devices.seriesOf device)
        (UsageRecorder.run numbers calls).lastSlot (slotOf now) := by
  induction calls using List.reverseRecOn with
  | nil =>
      intro now _
      have hNow : 0 ≤ slotOf now := Int.natCast_nonneg _
      exact ⟨fun workspace => held_init.mono hNow, fun device => held_init.mono hNow⟩
  | append_singleton calls call ih =>
      intro now hNow
      have hRun : UsageRecorder.run numbers (calls ++ [call]) =
          (UsageRecorder.run numbers calls).step numbers call := by
        simp [UsageRecorder.run]
      rw [hRun]
      unfold environmentSamples deviceSamples
      simp only [List.map_append, List.map_singleton]
      cases call with
      | record payload time =>
          obtain ⟨hBefore, hTime⟩ := hNow.of_append rfl
          obtain ⟨hEnvironments, hDevices⟩ := ih time hBefore
          constructor
          · intro workspace
            have hRecord := (hEnvironments workspace).record (Int.le_refl _)
              (environmentReading numbers payload workspace)
            rw [← entryReading_environmentEntries, ← seriesOf_record] at hRecord
            rw [entryReading_environmentEntries] at hRecord
            exact hRecord.mono (slotOf_le hTime)
          · intro device
            have hRecord := (hDevices device).record (Int.le_refl _) (deviceReading payload device)
            rw [← entryReading_deviceEntries, ← seriesOf_record] at hRecord
            rw [entryReading_deviceEntries] at hRecord
            exact hRecord.mono (slotOf_le hTime)
      | pause =>
          have hBefore : Chronological calls now := by
            unfold Chronological at hNow
            rw [List.filterMap_append, List.filterMap_cons_none rfl, List.filterMap_nil,
              List.append_nil] at hNow
            exact hNow
          obtain ⟨hEnvironments, hDevices⟩ := ih now hBefore
          constructor
          · intro workspace
            have hPause := (hEnvironments workspace).pause
            rw [← seriesOf_pause] at hPause
            exact hPause
          · intro device
            have hPause := (hDevices device).pause
            rw [← seriesOf_pause] at hPause
            exact hPause
      | history last =>
          obtain ⟨hBefore, hLast⟩ := hNow.of_append rfl
          obtain ⟨hEnvironments, hDevices⟩ := ih last hBefore
          constructor
          · intro workspace
            have hLook := (hEnvironments workspace).look (Int.le_refl _)
            rw [← seriesOf_prune] at hLook
            exact hLook.mono (slotOf_le hLast)
          · intro device
            have hLook := (hDevices device).look (Int.le_refl _)
            rw [← seriesOf_prune] at hLook
            exact hLook.mono (slotOf_le hLast)

/-- What a history is to report: no series where no slot has a reading, and else each series with
the readings that the calls define. -/
def Reports (calls : List (Call ν)) (now : Nat) : Option (Report ν) → Prop
  | none =>
      ∀ slot reading, slotOf now - POINTS < slot → slot ≤ slotOf now →
        (∀ workspace, ¬ Reads (environmentSamples numbers calls workspace) slot reading) ∧
        ∀ device, ¬ Reads (deviceSamples calls device) slot reading
  | some report =>
      report.endAt = slotOf now * INTERVAL_MS ∧
      Describes numbers (fun workspace => Reads (environmentSamples numbers calls workspace))
        (slotOf now) report.environments ∧
      Describes numbers (fun device => Reads (deviceSamples calls device)) (slotOf now)
        report.devices

theorem history_is_defined (calls : List (Call ν)) (now : Nat) (hNow : Chronological calls now) :
    Reports numbers calls now ((UsageRecorder.run numbers calls).history numbers now) := by
  obtain ⟨hEnvironments, hDevices⟩ := held_run numbers calls now hNow
  have hEnvironments := describes_report numbers hEnvironments (Int.le_refl _)
  have hDevices := describes_report numbers hDevices (Int.le_refl _)
  unfold UsageRecorder.history
  dsimp only
  split
  · rename_i hEmpty
    rw [Bool.and_eq_true, List.isEmpty_iff, List.isEmpty_iff] at hEmpty
    intro slot reading hWindow hSlot
    constructor
    · intro workspace
      exact hEnvironments.not_reads_of_nil hEmpty.1 hWindow hSlot
    · intro device
      exact hDevices.not_reads_of_nil hEmpty.2 hWindow hSlot
  · exact ⟨rfl, hEnvironments, hDevices⟩

end run

/-! ## A payload that drops a series -/

/-- Whole numbers. -/
def wholeNumbers : Numbers Nat := ⟨0, (· + ·), id, id⟩

def simulatorOwner : MachineOwner Nat where
  kind := .simulator
  workspace := none
  slot := none
  id := some [65]
  cpuPercent := 30
  memoryMb := 200

/-- A simulator in the second slot, and in the third a payload without it. -/
def droppingCalls : List (Call Nat) :=
  [.record (some [simulatorOwner]) 15000, .record (some []) 30000]

theorem history_is_defined_dropping :
    Reports wholeNumbers droppingCalls 30000
      ((UsageRecorder.run wholeNumbers droppingCalls).history wholeNumbers 30000) :=
  history_is_defined wholeNumbers droppingCalls 30000 (by unfold Chronological; decide)

/-- The payload before the slot held the series, no pause followed, and no payload of the slot held
it; but the slot has a payload, so the last reading shown is none. -/
theorem dropped_reads_none :
    Carried (deviceSamples droppingCalls (.simulator, [65])) 2 ⟨30, 200⟩ ∧
      (∀ reading, ¬ InSlot (deviceSamples droppingCalls (.simulator, [65])) 2 reading) ∧
      (((UsageRecorder.run wholeNumbers droppingCalls).history wholeNumbers 30000).bind
        fun report => (report.devices.get (.simulator, [65])).map
          fun shown => shown.2.cpuPercent.drop 38) = some [some 30, none] := by
  have hSamples : deviceSamples droppingCalls (.simulator, [65]) =
      [.payload 1 (some ⟨30, 200⟩), .payload 2 none] := by decide +kernel
  rw [hSamples]
  refine ⟨⟨[], 1, [.payload 2 none], rfl, by decide, ?_, by decide⟩, ?_, by decide +kernel⟩
  · intro later held hMem
    cases List.mem_singleton.mp hMem
    exact Int.le_refl 2
  · intro reading hIn
    simpa using hIn.mem

end Stim.UsageHistory
