import Stim.Cli.RunStats

/-!
# Statistics are read back as they were written

Every part of a record has its lemma: what is read of the part's JSON is the part, if its numbers are
doubles and the members that the reader drops at zero are not zero.  Only samples of runs that took
no time are not read back.
-/

namespace Stim.RunStats

open Json (member member_present)
open JsNumber (IsDouble wholeText)

/-! ## Numbers and texts -/

/-- A number that is written only above zero. -/
def Positive (value : Option Nat) : Prop := ∀ n, value = some n → 0 < n ∧ IsDouble n

theorem roundHalfUp_natCast (n : Nat) : roundHalfUp n = n := by
  have hfloor : ⌊(n : ℚ) + 1 / 2⌋ = n := by
    rw [Int.floor_eq_iff]
    constructor
    · push_cast
      linarith
    · push_cast
      linarith
  exact hfloor

theorem wholeMs_natCast (n : Nat) : wholeMs (.finite n) = n := by
  rw [wholeMs, roundHalfUp_natCast]
  split_ifs with hpos
  · rfl
  · have hzero : n = 0 := by
      by_contra hne
      exact hpos (by exact_mod_cast Nat.pos_of_ne_zero hne)
    rw [hzero]

theorem count_numberJson {n : Nat} (h : IsDouble n) : count (some (numberJson n)) = n := by
  rw [count, numberJson, Option.map_some, numberOf, JsNumber.toNumber_wholeText h,
    wholeMs_natCast, Option.getD_some]

theorem count_none : count none = 0 := rfl

variable {value : Option Nat}

theorem positive_count (h : Positive value) : positive (count (value.map numberJson)) = value := by
  cases value with
  | none => rfl
  | some n =>
      obtain ⟨hpos, hdouble⟩ := h n rfl
      rw [Option.map_some, count_numberJson hdouble, positive, if_pos hpos]

theorem timestamp_string {text : JsString} (h : text ≠ []) :
    timestamp (some (.string text)) = text := by
  rw [timestamp, stringOf, nonEmpty, Option.filter_some, if_pos (by simpa using h)]
  rfl

theorem stringOf_string (text : JsString) : stringOf (some (.string text)) = some text := rfl

theorem stringOf_map (text : Option JsString) : stringOf (text.map .string) = text := by
  cases text with
  | none => rfl
  | some text => rfl

theorem boolOf_map (b : Option Bool) : boolOf (b.map .bool) = b := by
  cases b with
  | none => rfl
  | some b => rfl

theorem platformOf_json (platform : StatsPlatform) : platformOf (some platform.json) = some platform := by
  cases platform with
  | ios => rfl
  | android => rfl

theorem decisionOf_json (decision : PlacementDecision) :
    decisionOf (some decision.json) = some decision := by
  cases decision with
  | here => rfl
  | offloaded => rfl
  | fellBack => rfl

/-! ## Buckets -/

/-- What the reader keeps of a bucket: numbers that are doubles, and sums that are written only above
zero. -/
structure StatsBucket.Readable (bucket : StatsBucket) : Prop where
  runs : IsDouble bucket.runs
  failed : IsDouble bucket.failed
  hits : IsDouble bucket.hits
  misses : IsDouble bucket.misses
  coldRuns : IsDouble bucket.coldRuns
  coldRunMs : IsDouble bucket.coldRunMs
  hitRuns : IsDouble bucket.hitRuns
  hitRunMs : IsDouble bucket.hitRunMs
  timeSavedMs : IsDouble bucket.timeSavedMs
  coldCleanupMs : Positive bucket.coldCleanupMs
  hitCleanupMs : Positive bucket.hitCleanupMs
  offloadedCleanupMs : Positive bucket.offloadedCleanupMs
  lastColdBuildMs : Positive bucket.lastColdBuildMs
  lastPodsMs : Positive bucket.lastPodsMs
  offloadedRuns : Positive bucket.offloadedRuns
  offloadedRunMs : ∀ n, bucket.offloadedRunMs = some n → IsDouble n
  together : bucket.offloadedRunMs.isSome = bucket.offloadedRuns.isSome
  firstRunAt : bucket.firstRunAt ≠ []
  lastRunAt : bucket.lastRunAt ≠ []

theorem offloadedRunMs_count {runs ms : Option Nat} (hruns : Positive runs)
    (hms : ∀ n, ms = some n → IsDouble n) (htogether : ms.isSome = runs.isSome) :
    (if 0 < count (runs.map numberJson) then some (count (ms.map numberJson)) else none) = ms := by
  cases runs with
  | none =>
      cases ms with
      | none => rfl
      | some n => cases htogether
  | some n =>
      cases ms with
      | none => cases htogether
      | some m =>
          obtain ⟨hpos, hdouble⟩ := hruns n rfl
          rw [Option.map_some, Option.map_some, count_numberJson hdouble,
            count_numberJson (hms m rfl), if_pos hpos]

theorem normalizeBucket_json {bucket : StatsBucket} (h : bucket.Readable) :
    (objectOf (some bucket.json)).map normalizeBucket = some bucket := by
  rw [StatsBucket.json, objectJson, objectOf, Option.map_some]
  congr 1
  have hmember := member_present
    (show (bucket.members.map Prod.fst).Nodup by simp [StatsBucket.members])
  simp only [normalizeBucket, hmember]
  simp [StatsBucket.members, List.lookup_cons, count_numberJson, h.runs, h.failed, h.hits, h.misses,
    h.coldRuns, h.coldRunMs, h.hitRuns, h.hitRunMs, h.timeSavedMs, timestamp_string h.firstRunAt,
    timestamp_string h.lastRunAt, positive_count h.coldCleanupMs, positive_count h.hitCleanupMs,
    positive_count h.offloadedCleanupMs, positive_count h.lastColdBuildMs,
    positive_count h.lastPodsMs, positive_count h.offloadedRuns, stringOf_map,
    offloadedRunMs_count h.offloadedRuns h.offloadedRunMs h.together]

theorem normalizeScope_json {scope : StatsScope}
    (h : ∀ platform bucket, scope.get platform = some bucket → bucket.Readable) :
    normalizeScope (some (StatsScope.json scope)) = scope := by
  have hbucket : ∀ bucket : Option StatsBucket, (∀ b, bucket = some b → b.Readable) →
      (objectOf (bucket.map StatsBucket.json)).map normalizeBucket = bucket := by
    intro bucket hbucket
    cases bucket with
    | none => rfl
    | some b => exact normalizeBucket_json (hbucket b rfl)
  have hmember := member_present
    (show ([("ios", scope.ios.map StatsBucket.json),
      ("android", scope.android.map StatsBucket.json)].map Prod.fst).Nodup by simp)
  rw [StatsScope.json, ByPlatform.json, objectJson, normalizeScope, objectOf]
  simp only [hmember]
  simp [List.lookup_cons, hbucket scope.ios (h .ios), hbucket scope.android (h .android)]

/-! ## Maps -/

variable {α : Type}

theorem entries_assignAll {values : List (JsString × Option α)}
    (hproto : ∀ e ∈ values, e.1 ≠ PROTO) (hnodup : (values.map Prod.fst).Nodup) :
    (assignAll values).entries = values.filterMap fun e => e.2.map fun a => (e.1, a) := by
  have hfold : ∀ (values : List (JsString × Option α)) (out : OrderedMap JsString α),
      (∀ e ∈ values, e.1 ≠ PROTO) → (out.keys ++ values.map Prod.fst).Nodup →
      (values.foldl (fun out entry => (entry.2.map (assign out entry.1)).getD out) out).entries =
        out.entries ++ values.filterMap fun e => e.2.map fun a => (e.1, a) := by
    intro values
    induction values with
    | nil =>
        intro out _ _
        simp
    | cons e rest ih =>
        intro out hproto hnodup
        obtain ⟨name, value⟩ := e
        have hrest : ∀ e ∈ rest, e.1 ≠ PROTO := fun e he => hproto e (List.mem_cons_of_mem _ he)
        rw [List.map_cons] at hnodup
        cases value with
        | none =>
            have hsub : (out.keys ++ rest.map Prod.fst).Nodup :=
              hnodup.sublist (List.Sublist.append_left (List.sublist_cons_self _ _) _)
            rw [List.foldl_cons, List.filterMap_cons_none rfl]
            exact ih out hrest hsub
        | some a =>
            have hname : name ≠ PROTO := hproto _ List.mem_cons_self
            have hnew : name ∉ out.keys := by
              intro hold
              exact (List.nodup_append.mp hnodup).2.2 _ hold name (by simp) rfl
            have hentries := OrderedMap.entries_set_of_notMem (v := a) hnew
            have hkeys : ((out.set name a).keys ++ rest.map Prod.fst).Nodup := by
              rw [OrderedMap.keys, hentries, List.map_append, List.append_assoc]
              exact hnodup
            have hkept : ((name, some a) :: rest).filterMap
                (fun e => e.2.map fun a => (e.1, a)) =
                (name, a) :: rest.filterMap fun e => e.2.map fun a => (e.1, a) := rfl
            rw [List.foldl_cons, hkept, Option.map_some, Option.getD_some, assign, if_neg hname,
              ih _ hrest hkeys, hentries, List.append_assoc, List.singleton_append]
  have hall := hfold values .empty hproto (by simpa [OrderedMap.keys, OrderedMap.empty] using hnodup)
  rw [assignAll, hall]
  rfl

theorem ofList_map (f : α → Json) (m : OrderedMap JsString α) :
    (OrderedMap.ofList (m.entries.map fun entry => (entry.1, f entry.2))).entries =
      m.entries.map fun entry => (entry.1, f entry.2) := by
  apply OrderedMap.entries_ofList
  rw [List.map_map]
  exact m.nodup

/-- What is kept of a map that was written as an object. -/
theorem assignEach_mapJson {α β : Type} (json : α → Json) (f : Json → Option β)
    {m : OrderedMap JsString α} (hproto : PROTO ∉ m.keys) :
    assignEach (some (mapJson json m)) f = m.filterMap fun _ a => f (json a) := by
  have hnodup : ((m.entries.map fun entry => (entry.1, f (json entry.2))).map Prod.fst).Nodup := by
    rw [List.map_map]
    exact m.nodup
  have hname : ∀ e ∈ m.entries.map fun entry => (entry.1, f (json entry.2)), e.1 ≠ PROTO := by
    intro e he heq
    obtain ⟨entry, hentry, rfl⟩ := List.mem_map.mp he
    exact hproto (heq ▸ List.mem_map_of_mem hentry)
  rw [mapJson, assignEach, objectOf]
  simp only [ofList_map, List.map_map]
  apply OrderedMap.ext
  have hentries := entries_assignAll hname hnodup
  rw [List.filterMap_map] at hentries
  exact hentries

variable {m : OrderedMap JsString α}

theorem filterMap_of_some {f : JsString → α → Option α}
    (h : ∀ e ∈ m.entries, f e.1 e.2 = some e.2) : m.filterMap f = m := by
  apply OrderedMap.ext
  rw [OrderedMap.filterMap]
  simp only
  have hall : ∀ e ∈ m.entries, ((f e.1 e.2).map fun v => (e.1, v)) = some e := by
    intro e he
    rw [h e he]
    rfl
  rw [List.filterMap_congr hall, List.filterMap_some]

theorem phaseMs_natCast (n : Nat) : phaseMs (.finite n) = some n := by
  rw [phaseMs, roundHalfUp_natCast, if_pos (Nat.cast_nonneg n), Int.toNat_natCast]

/-! ## Samples -/

structure RunSample.Readable (sample : RunSample) : Prop where
  at' : sample.at' ≠ []
  durationMs : IsDouble sample.durationMs
  phases : ∀ e ∈ sample.phases.entries, IsDouble e.2
  names : PROTO ∉ sample.phases.keys

theorem wholePhases_mapJson {phases : OrderedMap JsString Nat}
    (hdouble : ∀ e ∈ phases.entries, IsDouble e.2) (hnames : PROTO ∉ phases.keys) :
    wholePhases (numbersOf (some (mapJson numberJson phases))) = phases := by
  have hvalues : (numbersOf (some (mapJson numberJson phases))).map
      (fun entry => (entry.1, phaseMs entry.2)) =
      phases.entries.map fun entry => (entry.1, some entry.2) := by
    rw [mapJson, numbersOf, objectOf]
    simp only [ofList_map, List.map_map]
    apply List.map_congr_left
    intro e he
    have hnumber : numberOf (numberJson e.2) = .finite e.2 := by
      rw [numberJson, numberOf, JsNumber.toNumber_wholeText (hdouble e he)]
    simp only [Function.comp_apply, hnumber, phaseMs_natCast]
  have hname : ∀ e ∈ phases.entries.map fun entry => (entry.1, some entry.2), e.1 ≠ PROTO := by
    intro e he heq
    obtain ⟨entry, hentry, rfl⟩ := List.mem_map.mp he
    exact hnames (heq ▸ List.mem_map_of_mem hentry)
  have hnodup : ((phases.entries.map fun entry => (entry.1, some entry.2)).map Prod.fst).Nodup := by
    rw [List.map_map]
    exact phases.nodup
  apply OrderedMap.ext
  have hsome : ∀ e ∈ phases.entries,
      ((fun e : JsString × Option Nat => e.2.map fun a => (e.1, a)) ∘
        fun entry : JsString × Nat => (entry.1, some entry.2)) e = some e := fun _ _ => rfl
  rw [wholePhases, hvalues, entries_assignAll hname hnodup, List.filterMap_map,
    List.filterMap_congr hsome, List.filterMap_some]

/-- A sample of a run that took no time is not read. -/
theorem normalizeSample_json {sample : RunSample} (h : sample.Readable) :
    normalizeSample sample.json = if sample.durationMs = 0 then none else some sample := by
  have hmember := member_present
    (show (sample.members.map Prod.fst).Nodup by simp [RunSample.members])
  rw [RunSample.json, objectJson, normalizeSample, objectOf]
  simp only [hmember]
  simp [RunSample.members, List.lookup_cons, count_numberJson h.durationMs, timestamp_string h.at',
    wholePhases_mapJson h.phases h.names, boolOf_map]

def tookTime (sample : RunSample) : Bool := sample.durationMs ≠ 0

/-- A list that is not trimmed: few samples with a device set up, and few others. -/
def Short (samples : List RunSample) : Prop :=
  samples.countP isSetup ≤ HISTORY_LIMIT ∧ samples.countP (!isSetup ·) ≤ HISTORY_LIMIT

theorem keepSamples_of_few : ∀ {samples : List RunSample} {setup other : Nat},
    samples.countP isSetup + setup ≤ HISTORY_LIMIT →
    samples.countP (!isSetup ·) + other ≤ HISTORY_LIMIT →
    keepSamples samples setup other = samples := by
  intro samples
  induction samples with
  | nil =>
      intro _ _ _ _
      rfl
  | cons sample rest ih =>
      intro setup other hsetup hother
      rw [List.countP_cons] at hsetup hother
      rw [keepSamples]
      split_ifs with hkind hfull hfull
      · simp only [hkind, if_true] at hsetup
        omega
      · simp only [hkind, if_true, Bool.not_true] at hsetup hother
        rw [ih (by omega) (by simpa using hother)]
      · simp only [Bool.not_eq_true] at hkind
        simp only [hkind, Bool.not_false, if_true] at hother
        omega
      · simp only [Bool.not_eq_true] at hkind
        simp only [hkind, Bool.not_false, if_true] at hsetup hother
        rw [ih (by simpa using hsetup) (by omega)]

theorem countP_keepSamples : ∀ (samples : List RunSample) (setup other : Nat),
    setup ≤ HISTORY_LIMIT → other ≤ HISTORY_LIMIT →
    (keepSamples samples setup other).countP isSetup + setup ≤ HISTORY_LIMIT ∧
      (keepSamples samples setup other).countP (!isSetup ·) + other ≤ HISTORY_LIMIT := by
  intro samples
  induction samples with
  | nil =>
      intro setup other hsetup hother
      rw [keepSamples, List.countP_nil, List.countP_nil]
      omega
  | cons sample rest ih =>
      intro setup other hsetup hother
      rw [keepSamples]
      split_ifs with hkind hfull hfull
      · exact ih setup other hsetup hother
      · have hrest := ih (setup + 1) other (by omega) hother
        simp only [List.countP_cons, hkind, if_true, Bool.not_true, Bool.false_eq_true, if_false]
        omega
      · exact ih setup other hsetup hother
      · have hrest := ih setup (other + 1) hsetup (by omega)
        simp only [Bool.not_eq_true] at hkind
        simp only [List.countP_cons, hkind, if_true, Bool.not_false, Bool.false_eq_true, if_false]
        omega

variable {samples : List RunSample}

theorem trimSamples_of_short (h : Short samples) : trimSamples samples = samples := by
  rw [trimSamples, keepSamples_of_few (by rw [List.countP_reverse]; exact h.1)
    (by rw [List.countP_reverse]; exact h.2), List.reverse_reverse]

theorem short_trimSamples (samples : List RunSample) : Short (trimSamples samples) := by
  have hkept := countP_keepSamples samples.reverse 0 0 (by omega) (by omega)
  rw [Short, trimSamples, List.countP_reverse, List.countP_reverse]
  exact hkept

theorem Short.filter (h : Short samples) (p : RunSample → Bool) : Short (samples.filter p) :=
  ⟨le_trans (List.filter_sublist.countP_le) h.1, le_trans (List.filter_sublist.countP_le) h.2⟩

theorem arrayOf_listJson (f : α → Json) (list : List α) :
    (arrayOf (listJson f list)).getD [] = list.map f := by
  unfold listJson
  split_ifs with hnil
  · rw [hnil]
    rfl
  · rfl

theorem normalizeSamples_json (h : ∀ sample ∈ samples, sample.Readable) (hshort : Short samples) :
    normalizeSamples (listJson RunSample.json samples) = samples.filter tookTime := by
  have hkept : ∀ sample ∈ samples, (normalizeSample ∘ RunSample.json) sample =
      Option.guard tookTime sample := by
    intro sample hmem
    rw [Function.comp_apply, normalizeSample_json (h sample hmem), Option.guard, tookTime]
    by_cases hzero : sample.durationMs = 0
    · simp [hzero]
    · simp [hzero]
  rw [normalizeSamples, arrayOf_listJson, List.filterMap_map, List.filterMap_congr hkept,
    List.filterMap_eq_filter, trimSamples_of_short (hshort.filter _)]

/-! ## Histories -/

/-- The lists of a record without the samples of runs that took no time. -/
def RunLists.withoutZero (lists : RunLists) : Option RunLists :=
  let hit := lists.hit.filter tookTime
  let cold := lists.cold.filter tookTime
  if hit = [] ∧ cold = [] then none else some ⟨hit, cold⟩

def RunHistory.withoutZero (history : RunHistory) : Option RunHistory :=
  let kept : RunHistory := ⟨history.ios.bind RunLists.withoutZero,
    history.android.bind RunLists.withoutZero⟩
  if kept.isEmpty then none else some kept

structure RunLists.Readable (lists : RunLists) : Prop where
  samples : ∀ outcome, ∀ sample ∈ lists.get outcome, sample.Readable
  short : ∀ outcome, Short (lists.get outcome)

theorem normalizeLists_json {lists : RunLists} (h : lists.Readable) :
    normalizeLists (some lists.json) = lists.withoutZero := by
  have hmember := member_present
    (show (lists.members.map Prod.fst).Nodup by simp [RunLists.members])
  have hhit : normalizeSamples (listJson RunSample.json lists.hit) = lists.hit.filter tookTime :=
    normalizeSamples_json (h.samples .hit) (h.short .hit)
  have hcold : normalizeSamples (listJson RunSample.json lists.cold) =
      lists.cold.filter tookTime := normalizeSamples_json (h.samples .cold) (h.short .cold)
  have hhitMember : member (Json.present lists.members) "hit" =
      listJson RunSample.json lists.hit := by
    rw [hmember]
    rfl
  have hcoldMember : member (Json.present lists.members) "cold" =
      listJson RunSample.json lists.cold := by
    rw [hmember]
    rfl
  rw [RunLists.json, objectJson, normalizeLists, objectOf]
  simp only [hhitMember, hcoldMember, hhit, hcold]
  rfl

theorem normalizeHistory_json {history : RunHistory}
    (h : ∀ platform lists, history.get platform = some lists → lists.Readable) :
    (if (normalizeHistory (RunHistory.json history)).isEmpty then none
      else some (normalizeHistory (RunHistory.json history))) = history.withoutZero := by
  have hlists : ∀ lists : Option RunLists, (∀ l, lists = some l → l.Readable) →
      normalizeLists (lists.map RunLists.json) = lists.bind RunLists.withoutZero := by
    intro lists hlists
    cases lists with
    | none => rfl
    | some l => exact normalizeLists_json (hlists l rfl)
  have hmember := member_present
    (show ([("ios", history.ios.map RunLists.json),
      ("android", history.android.map RunLists.json)].map Prod.fst).Nodup by simp)
  have hkept : normalizeHistory (RunHistory.json history) =
      ⟨history.ios.bind RunLists.withoutZero, history.android.bind RunLists.withoutZero⟩ := by
    rw [RunHistory.json, ByPlatform.json, objectJson, normalizeHistory, objectOf]
    simp only [hmember]
    simp [List.lookup_cons, hlists history.ios (h .ios), hlists history.android (h .android)]
  rw [hkept]
  rfl

/-! ## Placements and capacity -/

structure StatsPlacement.Readable (placement : StatsPlacement) : Prop where
  at' : placement.at' ≠ []
  machine : placement.machine ≠ some []
  buildMs : Positive placement.buildMs
  slotWaitMs : Positive placement.slotWaitMs
  deviceSlotWaitMs : Positive placement.deviceSlotWaitMs
  localEstimateMs : Positive placement.localEstimateMs

theorem nonEmpty_stringOf {text : Option JsString} (h : text ≠ some []) :
    nonEmpty (stringOf (text.map .string)) = text := by
  rw [stringOf_map]
  cases text with
  | none => rfl
  | some text =>
      rw [nonEmpty, Option.filter_some, if_pos (by simpa using fun hnil => h (by rw [hnil]))]

theorem normalizePlacement_json {placement : StatsPlacement} (h : placement.Readable) :
    normalizePlacement placement.json = some placement := by
  have hmember := member_present
    (show (placement.members.map Prod.fst).Nodup by simp [StatsPlacement.members])
  have hfailed : boolOf (if placement.failed then some (.bool true) else none) = some true ↔
      placement.failed = true := by
    cases placement.failed with
    | true => exact iff_of_true rfl rfl
    | false => exact iff_of_false (by simp [boolOf]) (by simp)
  rw [StatsPlacement.json, objectJson, normalizePlacement, objectOf]
  simp only [Option.bind_eq_bind, Option.bind_some, hmember]
  simp [StatsPlacement.members, List.lookup_cons, decisionOf_json, platformOf_json, stringOf_string,
    timestamp_string h.at', nonEmpty_stringOf h.machine, positive_count h.buildMs,
    positive_count h.slotWaitMs, positive_count h.deviceSlotWaitMs,
    positive_count h.localEstimateMs, hfailed]

theorem positiveInteger_map (h : Positive value) :
    positiveInteger (value.map numberJson) = value := by
  cases value with
  | none => rfl
  | some n =>
      obtain ⟨hpos, hdouble⟩ := h n rfl
      rw [Option.map_some, positiveInteger, numberJson, numberValue,
        JsNumber.toNumber_wholeText hdouble, JsNumber.integer_natCast]
      simp only [Int.natCast_pos.mpr hpos, if_true, Int.toNat_natCast]

structure StatsCapacityRefusal.Readable (event : StatsCapacityRefusal) : Prop where
  at' : ∃ t : Int, t.natAbs ≤ IsoDate.MAX_TIME ∧ event.at' = IsoDate.toISOString t
  max : 0 < event.max ∧ IsDouble event.max
  workspace : event.workspace ≠ []

structure StatsCapacityWait.Readable (event : StatsCapacityWait) : Prop where
  at' : ∃ t : Int, t.natAbs ≤ IsoDate.MAX_TIME ∧ event.at' = IsoDate.toISOString t
  max : 0 < event.max ∧ IsDouble event.max
  workspace : event.workspace ≠ []
  ms : IsDouble event.ms
  reclaimed : Positive event.reclaimed

section

variable (otherForms : JsString → Option Int)

/-- An event is read from any object that has its members. -/
theorem normalizeCapacityEvent_eq {members : List (JsString × Json)} {event : StatsCapacityRefusal}
    (h : event.Readable) (hplatform : member members "platform" = some event.platform.json)
    (hat : member members "at" = some (.string event.at'))
    (hmax : member members "max" = some (numberJson event.max))
    (hworkspace : member members "workspace" = some (.string event.workspace)) :
    normalizeCapacityEvent otherForms members = some event := by
  obtain ⟨t, ht, hat'⟩ := h.at'
  have hmaximum : Positive (some event.max) := by
    intro n hn
    cases hn
    exact h.max
  have hpositive : positiveInteger (some (numberJson event.max)) = some event.max :=
    positiveInteger_map hmaximum
  have hname : some event.workspace ≠ some [] := fun hnil => h.workspace (Option.some.inj hnil)
  have hnonEmpty : nonEmpty (stringOf (some (.string event.workspace))) = some event.workspace :=
    nonEmpty_stringOf hname
  rw [normalizeCapacityEvent, hplatform, hat, hmax, hworkspace, platformOf_json, hpositive,
    hnonEmpty]
  simp only [stringOf, hat', Option.bind_eq_bind, Option.bind_some,
    IsoDate.dateParse_toISOString otherForms ht]
  rw [← hat']

theorem normalizeCapacityRefusal_json {event : StatsCapacityRefusal} (h : event.Readable) :
    normalizeCapacityRefusal otherForms event.json = some event := by
  have hmember := member_present
    (show (event.members.map Prod.fst).Nodup by simp [StatsCapacityRefusal.members])
  have hkind : stringOf (member (Json.present event.members) "kind") =
      some (JsString.ofString "device") := by
    rw [hmember]
    rfl
  rw [StatsCapacityRefusal.json, objectJson, normalizeCapacityRefusal, objectOf,
    Option.bind_eq_bind, Option.bind_some, if_pos hkind]
  apply normalizeCapacityEvent_eq otherForms h
  all_goals
    rw [hmember]
    rfl

theorem normalizeCapacityWait_json {event : StatsCapacityWait} (h : event.Readable) :
    normalizeCapacityWait otherForms event.json = some event := by
  have hmember := member_present
    (show (event.members.map Prod.fst).Nodup by simp [StatsCapacityWait.members])
  have hkind : stringOf (member (Json.present event.members) "kind") =
      some (JsString.ofString "device-wait") := by
    rw [hmember]
    rfl
  have hms : numberValue (member (Json.present event.members) "ms") = .finite event.ms := by
    rw [hmember]
    exact JsNumber.toNumber_wholeText h.ms
  have hreclaimed : positiveInteger (member (Json.present event.members) "reclaimed") =
      event.reclaimed := by
    rw [hmember]
    exact positiveInteger_map h.reclaimed
  have hevent : normalizeCapacityEvent otherForms (Json.present event.members) =
      some ⟨event.at', event.platform, event.max, event.workspace⟩ := by
    apply normalizeCapacityEvent_eq otherForms ⟨h.at', h.max, h.workspace⟩
    all_goals
      rw [hmember]
      rfl
  rw [StatsCapacityWait.json, objectJson, normalizeCapacityWait, objectOf,
    Option.bind_eq_bind, Option.bind_some, if_pos hkind, hevent]
  simp only [Option.bind_eq_bind, Option.bind_some, hms, Nat.cast_nonneg, if_true, hreclaimed, roundHalfUp_natCast, Int.toNat_natCast]

end

/-! ## Totals of build machines -/

structure BuildMachineTotals.Readable (totals : BuildMachineTotals) : Prop where
  offloaded : ∃ n : Nat, totals.offloaded = .whole n ∧ IsDouble n
  offloadedMs : ∃ n : Nat, totals.offloadedMs = .whole n ∧ IsDouble n
  savedMs : ∃ z : Int, totals.savedMs = .whole z ∧ IsDouble z.natAbs
  fallbacks : ∃ n : Nat, totals.fallbacks = .whole n ∧ IsDouble n

variable {total : Total}

theorem count_total (h : ∃ n : Nat, total = .whole n ∧ IsDouble n) :
    Total.whole (count total.json) = total := by
  obtain ⟨n, rfl, hdouble⟩ := h
  have htext : JsNumber.intText n = wholeText n := by
    rw [JsNumber.intText, if_neg (by omega), Int.natAbs_natCast]
  have hcount := count_numberJson hdouble
  rw [numberJson] at hcount
  rw [Total.json, htext, hcount]

theorem roundHalfUp_intCast (z : Int) : roundHalfUp z = z := by
  have hfloor : ⌊(z : ℚ) + 1 / 2⌋ = z := by
    rw [Int.floor_eq_iff]
    constructor
    · linarith
    · linarith
  exact hfloor

theorem normalizeMachineTotals_json {totals : BuildMachineTotals} (h : totals.Readable) :
    (objectOf (some totals.json)).map normalizeMachineTotals = some totals := by
  have hmember := member_present
    (show (totals.members.map Prod.fst).Nodup by simp [BuildMachineTotals.members])
  obtain ⟨z, hz, hdouble⟩ := h.savedMs
  have hsaved : totals.savedMs.json.map numberOf = some (.finite z) := by
    rw [hz, Total.json, Option.map_some, numberOf, JsNumber.toNumber_intText hdouble]
  rw [BuildMachineTotals.json, objectJson, objectOf, Option.map_some]
  congr 1
  simp only [normalizeMachineTotals, hmember]
  simp [BuildMachineTotals.members, List.lookup_cons, stringOf_map, count_total h.offloaded,
    count_total h.offloadedMs, count_total h.fallbacks, hsaved, roundHalfUp_intCast, ← hz]

/-! ## Records -/

/-- A record that is read back. -/
structure StatsRecord.Readable (record : StatsRecord) : Prop where
  machine : ∀ platform bucket, record.machine.get platform = some bucket → bucket.Readable
  projects : ∀ e ∈ record.projects.entries, ∀ platform bucket, e.2.get platform = some bucket →
    bucket.Readable
  projectNames : PROTO ∉ record.projects.keys
  history : ∀ e ∈ record.history.entries, ∀ platform lists, e.2.get platform = some lists →
    lists.Readable
  historyNames : PROTO ∉ record.history.keys
  placements : ∀ placement ∈ record.placements, placement.Readable
  capacityRefusals : ∀ event ∈ record.capacityRefusals, event.Readable
  capacityWaits : ∀ event ∈ record.capacityWaits, event.Readable
  buildMachines : ∀ e ∈ record.buildMachines.entries, e.2.Readable
  machineNames : PROTO ∉ record.buildMachines.keys

/-- The record without the samples of runs that took no time. -/
def StatsRecord.withoutZeroSamples (record : StatsRecord) : StatsRecord :=
  { record with history := record.history.filterMap fun _ history => history.withoutZero }

theorem assignEach_entriesJson {α β : Type} (json : α → Json) (f : Json → Option β)
    {m : OrderedMap JsString α} (hproto : PROTO ∉ m.keys) :
    assignEach (entriesJson json m) f = m.filterMap fun _ a => f (json a) := by
  unfold entriesJson
  split_ifs with hnil
  · apply OrderedMap.ext
    change [] = m.entries.filterMap _
    rw [hnil]
    rfl
  · exact assignEach_mapJson json f hproto

theorem filterMap_listJson (json : α → Json) (f : Json → Option α) {list : List α}
    (h : ∀ a ∈ list, f (json a) = some a) :
    ((arrayOf (listJson json list)).getD []).filterMap f = list := by
  have hall : ∀ a ∈ list, (f ∘ json) a = some a := h
  rw [arrayOf_listJson, List.filterMap_map, List.filterMap_congr hall, List.filterMap_some]

variable {record : StatsRecord}

theorem normalize_json (otherForms : JsString → Option Int) (h : record.Readable) :
    normalize otherForms (Json.present record.members) = record.withoutZeroSamples := by
  have hmember := member_present
    (show (record.members.map Prod.fst).Nodup by simp [StatsRecord.members])
  have hprojects : assignEach (some (mapJson StatsScope.json record.projects))
      (fun scope => some (normalizeScope (some scope))) = record.projects := by
    rw [assignEach_mapJson _ _ h.projectNames]
    apply filterMap_of_some
    intro e he
    rw [normalizeScope_json (h.projects e he)]
  have hhistory : assignEach (entriesJson RunHistory.json record.history)
      (fun scope => if (normalizeHistory scope).isEmpty then none
        else some (normalizeHistory scope)) =
      record.history.filterMap fun _ history => history.withoutZero := by
    rw [assignEach_entriesJson _ _ h.historyNames]
    apply OrderedMap.ext
    rw [OrderedMap.filterMap, OrderedMap.filterMap]
    apply List.filterMap_congr
    intro e he
    rw [normalizeHistory_json (h.history e he)]
  have hmachines : assignEach (entriesJson BuildMachineTotals.json record.buildMachines)
      (fun totals => (objectOf (some totals)).map normalizeMachineTotals) =
      record.buildMachines := by
    rw [assignEach_entriesJson _ _ h.machineNames]
    apply filterMap_of_some
    intro e he
    exact normalizeMachineTotals_json (h.buildMachines e he)
  have hplacements := filterMap_listJson StatsPlacement.json normalizePlacement
    fun placement hmem => normalizePlacement_json (h.placements placement hmem)
  have hrefusals := filterMap_listJson StatsCapacityRefusal.json
    (normalizeCapacityRefusal otherForms)
    fun event hmem => normalizeCapacityRefusal_json otherForms (h.capacityRefusals event hmem)
  have hwaits := filterMap_listJson StatsCapacityWait.json (normalizeCapacityWait otherForms)
    fun event hmem => normalizeCapacityWait_json otherForms (h.capacityWaits event hmem)
  rw [normalize, StatsRecord.withoutZeroSamples]
  simp only [hmember]
  simp [StatsRecord.members, List.lookup_cons, normalizeScope_json h.machine, hprojects, hhistory,
    hmachines, hplacements, hrefusals, hwaits]

/-! ## Texts -/

/-- A member that is written is written as JSON. -/
def NumericMember (value : Option Json) : Prop := ∀ v, value = some v → Json.Numeric v

theorem numeric_numberJson {n : Nat} (h : IsDouble n) : Json.Numeric (numberJson n) :=
  JsNumber.isNumber_wholeText h

theorem numericMember_some {v : Json} : NumericMember (some v) ↔ Json.Numeric v := by
  constructor
  · exact fun h => h v rfl
  · intro h w hw
    cases hw
    exact h

theorem numericMember_none : NumericMember none := by
  intro v h
  cases h

theorem numericMember_numbers (h : ∀ n, value = some n → IsDouble n) :
    NumericMember (value.map numberJson) := by
  cases value with
  | none => exact numericMember_none
  | some n => exact numericMember_some.mpr (numeric_numberJson (h n rfl))

theorem Positive.numeric (h : Positive value) :
    NumericMember (value.map numberJson) := numericMember_numbers fun n hn => (h n hn).2

variable {f : α → Json}

theorem numericMember_map {value : Option α} (h : ∀ a, value = some a → Json.Numeric (f a)) :
    NumericMember (value.map f) := by
  cases value with
  | none => exact numericMember_none
  | some a => exact numericMember_some.mpr (h a rfl)

theorem numeric_string (s : JsString) : Json.Numeric (.string s) := trivial

theorem numeric_objectJson {members : List (String × Option Json)}
    (h : ∀ m ∈ members, NumericMember m.2) : Json.Numeric (objectJson members) :=
  Json.numeric_present fun m hm v hv => h m hm v hv

theorem numeric_mapJson (h : ∀ e ∈ m.entries, Json.Numeric (f e.2)) :
    Json.Numeric (mapJson f m) := by
  rw [mapJson, Json.Numeric, Json.numericMembers_iff]
  intro e he
  obtain ⟨entry, hentry, rfl⟩ := List.mem_map.mp he
  exact h entry hentry

theorem numericMember_listJson {list : List α} (h : ∀ a ∈ list, Json.Numeric (f a)) :
    NumericMember (listJson f list) := by
  unfold listJson
  split_ifs with hnil
  · exact numericMember_none
  · rw [numericMember_some, Json.Numeric, Json.numericElements_iff]
    intro v hv
    obtain ⟨a, ha, rfl⟩ := List.mem_map.mp hv
    exact h a ha

theorem numericMember_entriesJson (h : ∀ e ∈ m.entries, Json.Numeric (f e.2)) :
    NumericMember (entriesJson f m) := by
  unfold entriesJson
  split_ifs with hnil
  · exact numericMember_none
  · exact numericMember_some.mpr (numeric_mapJson h)

theorem StatsBucket.Readable.numeric {bucket : StatsBucket} (h : bucket.Readable) :
    Json.Numeric bucket.json := by
  have htexts : NumericMember (bucket.lastOffloadHost.map .string) :=
    numericMember_map fun s _ => numeric_string s
  apply numeric_objectJson
  simp only [StatsBucket.members, List.forall_mem_cons, numericMember_some, numeric_string,
    numeric_numberJson h.runs, numeric_numberJson h.failed, numeric_numberJson h.hits,
    numeric_numberJson h.misses, numeric_numberJson h.coldRuns, numeric_numberJson h.coldRunMs,
    numeric_numberJson h.hitRuns, numeric_numberJson h.hitRunMs,
    numeric_numberJson h.timeSavedMs, h.coldCleanupMs.numeric, h.hitCleanupMs.numeric,
    h.offloadedCleanupMs.numeric, h.lastColdBuildMs.numeric, h.lastPodsMs.numeric,
    h.offloadedRuns.numeric, numericMember_numbers h.offloadedRunMs, htexts]
  simp

theorem numeric_byPlatform {m : ByPlatform α}
    (h : ∀ platform a, m.get platform = some a → Json.Numeric (f a)) :
    Json.Numeric (ByPlatform.json f m) := by
  apply numeric_objectJson
  simp only [List.forall_mem_cons]
  exact ⟨numericMember_map fun a ha => h .ios a ha, numericMember_map fun a ha => h .android a ha,
    by simp⟩

theorem RunSample.Readable.numeric {sample : RunSample} (h : sample.Readable) :
    Json.Numeric sample.json := by
  have hphases : Json.Numeric (mapJson numberJson sample.phases) :=
    numeric_mapJson fun e he => numeric_numberJson (h.phases e he)
  have hsetup : NumericMember (sample.deviceSetup.map .bool) :=
    numericMember_map fun b _ => by trivial
  apply numeric_objectJson
  simp only [RunSample.members, List.forall_mem_cons, numericMember_some, numeric_string,
    numeric_numberJson h.durationMs, hphases, hsetup]
  simp

theorem RunLists.Readable.numeric {lists : RunLists} (h : lists.Readable) :
    Json.Numeric lists.json := by
  apply numeric_objectJson
  simp only [RunLists.members, List.forall_mem_cons]
  exact ⟨numericMember_listJson fun sample hmem => (h.samples .hit sample hmem).numeric,
    numericMember_listJson fun sample hmem => (h.samples .cold sample hmem).numeric, by simp⟩

theorem numeric_textJson (text : String) : Json.Numeric (textJson text) := numeric_string _

theorem numeric_platform (platform : StatsPlatform) : Json.Numeric platform.json := by
  cases platform with
  | ios => exact numeric_textJson _
  | android => exact numeric_textJson _

theorem numeric_decision (decision : PlacementDecision) : Json.Numeric decision.json := by
  cases decision with
  | here => exact numeric_textJson _
  | offloaded => exact numeric_textJson _
  | fellBack => exact numeric_textJson _

theorem StatsPlacement.Readable.numeric {placement : StatsPlacement} (h : placement.Readable) :
    Json.Numeric placement.json := by
  have hmachine : NumericMember (placement.machine.map .string) :=
    numericMember_map fun s _ => numeric_string s
  have hfailed : NumericMember (if placement.failed then some (.bool true) else none) := by
    cases placement.failed with
    | true => exact numericMember_some.mpr trivial
    | false => exact numericMember_none
  apply numeric_objectJson
  simp only [StatsPlacement.members, List.forall_mem_cons, numericMember_some, numeric_string,
    numeric_platform, numeric_decision, hmachine, h.buildMs.numeric, h.slotWaitMs.numeric,
    h.deviceSlotWaitMs.numeric, h.localEstimateMs.numeric, hfailed]
  simp

theorem StatsCapacityRefusal.Readable.numeric {event : StatsCapacityRefusal} (h : event.Readable) :
    Json.Numeric event.json := by
  apply numeric_objectJson
  simp only [StatsCapacityRefusal.members, List.forall_mem_cons, numericMember_some,
    numeric_string, numeric_textJson, numeric_platform, numeric_numberJson h.max.2]
  simp

theorem StatsCapacityWait.Readable.numeric {event : StatsCapacityWait} (h : event.Readable) :
    Json.Numeric event.json := by
  apply numeric_objectJson
  simp only [StatsCapacityWait.members, List.forall_mem_cons, numericMember_some,
    numeric_string, numeric_textJson, numeric_platform, numeric_numberJson h.max.2,
    numeric_numberJson h.ms, h.reclaimed.numeric]
  simp

theorem numericMember_total (h : ∀ z, total = .whole z → IsDouble z.natAbs) :
    NumericMember total.json := by
  cases total with
  | absent => exact numericMember_none
  | nan => exact numericMember_some.mpr trivial
  | whole z => exact numericMember_some.mpr (JsNumber.isNumber_intText (h z rfl))

theorem numericMember_count (h : ∃ n : Nat, total = .whole n ∧ IsDouble n) :
    NumericMember total.json := by
  obtain ⟨n, rfl, hdouble⟩ := h
  apply numericMember_total
  intro z hz
  cases hz
  exact hdouble

theorem BuildMachineTotals.Readable.numeric {totals : BuildMachineTotals} (h : totals.Readable) :
    Json.Numeric totals.json := by
  obtain ⟨z, hz, hdouble⟩ := h.savedMs
  have hsaved : NumericMember totals.savedMs.json := by
    apply numericMember_total
    intro y hy
    rw [hz] at hy
    cases hy
    exact hdouble
  have htexts : ∀ text : Option JsString, NumericMember (text.map .string) :=
    fun text => numericMember_map fun s _ => numeric_string s
  apply numeric_objectJson
  simp only [BuildMachineTotals.members, List.forall_mem_cons, numericMember_count h.offloaded,
    numericMember_count h.offloadedMs, numericMember_count h.fallbacks, hsaved, htexts]
  simp

theorem isDouble_version : IsDouble STATS_VERSION :=
  JsNumber.isDouble_of_le (by unfold STATS_VERSION; omega)

theorem StatsRecord.Readable.numeric (h : record.Readable) : Json.Numeric record.json := by
  have hmachine : Json.Numeric (StatsScope.json record.machine) :=
    numeric_byPlatform fun platform bucket hb => (h.machine platform bucket hb).numeric
  have hprojects : Json.Numeric (mapJson StatsScope.json record.projects) :=
    numeric_mapJson fun e he => numeric_byPlatform fun platform bucket hb =>
      (h.projects e he platform bucket hb).numeric
  have hhistory : NumericMember (entriesJson RunHistory.json record.history) :=
    numericMember_entriesJson fun e he => numeric_byPlatform fun platform lists hl =>
      (h.history e he platform lists hl).numeric
  have hplacements := numericMember_listJson fun placement hmem =>
    (h.placements placement hmem).numeric
  have hrefusals := numericMember_listJson fun event hmem =>
    (h.capacityRefusals event hmem).numeric
  have hwaits := numericMember_listJson fun event hmem => (h.capacityWaits event hmem).numeric
  have hmachines : NumericMember (entriesJson BuildMachineTotals.json record.buildMachines) :=
    numericMember_entriesJson fun e he => (h.buildMachines e he).numeric
  have hversion : Json.Numeric (numberJson STATS_VERSION) :=
    numeric_numberJson isDouble_version
  apply numeric_objectJson
  simp only [StatsRecord.members, List.forall_mem_cons, numericMember_some, hversion, hmachine,
    hprojects, hhistory, hplacements, hrefusals, hwaits, hmachines]
  simp

/-- A written record is read back. -/
theorem decodeStats_statsText (otherForms : JsString → Option Int) (h : record.Readable) :
    decodeStats otherForms (statsText record) = .record record.withoutZeroSamples := by
  have hspace : Json.Spaces [10] := by
    intro u hu
    rw [List.mem_singleton.mp hu]
    decide
  have hmember := member_present
    (show (record.members.map Prod.fst).Nodup by simp [StatsRecord.members])
  have hversion : numberValue (member (Json.present record.members) "version") =
      .finite (STATS_VERSION : Nat) := by
    rw [hmember]
    exact JsNumber.toNumber_wholeText isDouble_version
  have hparse : Json.parse (statsText record) = some (.object (Json.present record.members)) :=
    Json.parse_stringify h.numeric hspace
  rw [decodeStats, hparse]
  simp only [hversion, JsNumber.integer_natCast]
  rw [if_neg (lt_irrefl _), normalize_json otherForms h]

end Stim.RunStats
