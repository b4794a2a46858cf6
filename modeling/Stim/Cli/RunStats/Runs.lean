import Stim.Cli.RunStats.Totals

/-!
# Runs of the statistics

What every call keeps: a record that is read back, whose buckets add up.  A call keeps it unless a
name of its run is one that objects inherit: the totals of a machine of such a name begin as `NaN`,
and a project or machine named `__proto__` is lost.
-/

namespace Stim

namespace JsNumber

/-- A number that JavaScript has: a finite one is a double. -/
def IsValue : JsNumber → Prop
  | .finite q => round q = .finite q
  | _ => True

/-- Doubles that are not small are whole. -/
theorem exists_nat_of_large {q : ℚ} (h : round q = .finite q) (hlarge : 2 ^ 53 < q) :
    ∃ n : Nat, q = n := by
  have hpos : 0 < q := lt_trans (by positivity) hlarge
  have hint : ∃ z : Int, q = z := by
    unfold round at h
    simp only at h
    split_ifs at h with hwhole hinfinite
    · exact ⟨q.num, (Rat.coe_int_num_of_den_eq_one hwhole.1).symm⟩
    · exact absurd hpos (not_lt.mpr (le_of_lt ‹q < 0›))
    · injection h with hq
      rw [abs_of_pos hpos] at hq
      have hlog : 53 ≤ Int.log 2 q := by
        rw [← Int.zpow_le_iff_le_log (by omega) hpos]
        exact_mod_cast hlarge.le
      obtain ⟨k, hk⟩ : ∃ k : Nat, max (Int.log 2 q - 52) (-1074) = k :=
        ⟨(Int.log 2 q - 52).toNat, by omega⟩
      rw [roundPositive] at hq
      simp only [hk, zpow_natCast] at hq
      refine ⟨nearest (q / 2 ^ k) * 2 ^ k, ?_⟩
      push_cast
      exact hq.symm
  obtain ⟨z, rfl⟩ := hint
  have hz : 0 < z := by exact_mod_cast hpos
  exact ⟨z.toNat, by exact_mod_cast (Int.toNat_of_nonneg hz.le).symm⟩

end JsNumber

namespace RunStats

open JsNumber (IsDouble IsValue)

/-! ## Numbers -/

theorem isDouble_roundHalfUp {q : ℚ} (h : JsNumber.round q = .finite q) :
    IsDouble (roundHalfUp q).toNat := by
  rcases le_or_gt q (2 ^ 53) with hsmall | hlarge
  · apply JsNumber.isDouble_of_le
    have hlt : ⌊q + 1 / 2⌋ < (2 ^ 53 + 1 : Int) := by
      rw [Int.floor_lt]
      push_cast
      linarith
    have hfloor : roundHalfUp q < 2 ^ 53 + 1 := hlt
    omega
  · obtain ⟨n, rfl⟩ := JsNumber.exists_nat_of_large h hlarge
    rw [roundHalfUp_natCast, Int.toNat_natCast]
    exact h

theorem isDouble_wholeMs {value : JsNumber} (h : value.IsValue) : IsDouble (wholeMs value) := by
  have hzero : IsDouble 0 := JsNumber.isDouble_of_le (Nat.zero_le _)
  cases value with
  | nan => exact hzero
  | infinite negative => exact hzero
  | finite q =>
      rw [wholeMs]
      split_ifs with hpos
      · exact isDouble_roundHalfUp h
      · exact hzero

/-- Every number that is there is one that JavaScript has. -/
def Values (value : Option JsNumber) : Prop := ∀ v, value = some v → v.IsValue

theorem isDouble_wholeMsOf {value : Option JsNumber} (h : Values value) :
    IsDouble (wholeMsOf value) := by
  cases value with
  | none => exact JsNumber.isDouble_of_le (Nat.zero_le _)
  | some v => exact isDouble_wholeMs (h v rfl)

theorem positive_positive {n : Nat} (h : IsDouble n) : Positive (positive n) := by
  intro m hm
  unfold positive at hm
  split_ifs at hm with hpos
  cases hm
  exact ⟨hpos, h⟩

theorem positive_or {a b : Option Nat} (ha : Positive a) (hb : Positive b) : Positive (a.or b) := by
  cases a with
  | none => exact hb
  | some n => exact ha

theorem positive_none : Positive none := by
  intro n hn
  cases hn

/-! ## Calls -/

structure RunPlacement.Typed (placement : RunPlacement) : Prop where
  slotWaitMs : Values placement.slotWaitMs
  deviceSlotWaitMs : Values placement.deviceSlotWaitMs
  buildMs : Values placement.buildMs

/-- A run whose numbers are ones that JavaScript has. -/
structure StatsRun.Typed (run : StatsRun) : Prop where
  durationMs : run.durationMs.IsValue
  coldBuildMs : Values run.coldBuildMs
  podsMs : Values run.podsMs
  phases : ∀ phases, run.phases = some phases → ∀ e ∈ phases.entries, e.2.IsValue
  placement : ∀ placement, run.placement = some placement → placement.Typed

/-- The maximum is a positive integer, and the workspace has a name. -/
structure StatsCapacityEvent.Typed (event : StatsCapacityEvent) : Prop where
  max : 0 < event.max ∧ IsDouble event.max
  workspace : event.workspace ≠ []

def StatsCall.Typed : StatsCall → Prop
  | .run recorded => recorded.Typed
  | .refusal event => event.Typed
  | .wait event => event.toStatsCapacityEvent.Typed ∧ event.ms.IsValue ∧ Values event.reclaimed

/-- No name of a run is one that objects inherit, where the code would take what is inherited for a
member: a project or machine named `__proto__`, and, among machines that have totals, one without
totals that has an inherited name such as `constructor`. -/
def NamesOwn (record : StatsRecord) : StatsCall → Prop
  | .run run =>
      run.projectKey ≠ PROTO ∧
        ∀ placement machine, run.placement = some placement → placement.decision ≠ .here →
          nonEmpty placement.machine = some machine →
          machine ≠ PROTO ∧ (machine ∈ OBJECT_PROTOTYPE →
            record.buildMachines.entries = [] ∨ machine ∈ record.buildMachines.keys)
  | .refusal _ | .wait _ => True

/-- Every sum of a record is below `2 ^ 53`. -/
structure StatsRecord.Small (record : StatsRecord) : Prop where
  buckets : ∀ bucket, Bucket record bucket → ∀ sum : StatsSum, sum.of bucket < 2 ^ 53
  machines : ∀ e ∈ record.buildMachines.entries,
    ∀ total ∈ [e.2.offloaded, e.2.offloadedMs, e.2.savedMs, e.2.fallbacks],
      ∀ z, total = .whole z → z.natAbs < 2 ^ 53

/-! ## Buckets -/

/-- The shape of a bucket that is read back, apart from the size of its sums. -/
structure StatsBucket.Formed (bucket : StatsBucket) : Prop where
  coldCleanupMs : ∀ n, bucket.coldCleanupMs = some n → 0 < n
  hitCleanupMs : ∀ n, bucket.hitCleanupMs = some n → 0 < n
  offloadedCleanupMs : ∀ n, bucket.offloadedCleanupMs = some n → 0 < n
  lastColdBuildMs : Positive bucket.lastColdBuildMs
  lastPodsMs : Positive bucket.lastPodsMs
  offloadedRuns : ∀ n, bucket.offloadedRuns = some n → 0 < n
  together : bucket.offloadedRunMs.isSome = bucket.offloadedRuns.isSome
  firstRunAt : bucket.firstRunAt ≠ []
  lastRunAt : bucket.lastRunAt ≠ []

theorem StatsBucket.Formed.readable {bucket : StatsBucket} (h : bucket.Formed)
    (hsmall : ∀ sum : StatsSum, sum.of bucket < 2 ^ 53) : bucket.Readable := by
  have hdouble : ∀ sum : StatsSum, IsDouble (sum.of bucket) :=
    fun sum => JsNumber.isDouble_of_le (hsmall sum).le
  have hoption : ∀ (sum : StatsSum) {value : Option Nat}, sum.of bucket = value.getD 0 →
      ∀ n, value = some n → IsDouble n := by
    intro sum value hsum n hn
    have hn' := hdouble sum
    rw [hsum, hn] at hn'
    exact hn'
  exact {
    runs := hdouble .runs
    failed := hdouble .failed
    hits := hdouble .hits
    misses := hdouble .misses
    coldRuns := hdouble .coldRuns
    coldRunMs := hdouble .coldRunMs
    hitRuns := hdouble .hitRuns
    hitRunMs := hdouble .hitRunMs
    timeSavedMs := hdouble .timeSavedMs
    coldCleanupMs := fun n hn => ⟨h.coldCleanupMs n hn, hoption .coldCleanupMs rfl n hn⟩
    hitCleanupMs := fun n hn => ⟨h.hitCleanupMs n hn, hoption .hitCleanupMs rfl n hn⟩
    offloadedCleanupMs := fun n hn =>
      ⟨h.offloadedCleanupMs n hn, hoption .offloadedCleanupMs rfl n hn⟩
    lastColdBuildMs := h.lastColdBuildMs
    lastPodsMs := h.lastPodsMs
    offloadedRuns := fun n hn => ⟨h.offloadedRuns n hn, hoption .offloadedRuns rfl n hn⟩
    offloadedRunMs := hoption .offloadedRunMs rfl
    together := h.together
    firstRunAt := h.firstRunAt
    lastRunAt := h.lastRunAt }

theorem addPositive_pos {sum : Option Nat} {ms : Nat} (h : ∀ n, sum = some n → 0 < n) :
    ∀ n, addPositive sum ms = some n → 0 < n := by
  intro n hn
  unfold addPositive at hn
  split_ifs at hn with hpos
  · cases hn
    omega
  · exact h n hn

variable {at' : JsString}

theorem formed_newBucket (h : at' ≠ []) : (newBucket at').Formed where
  coldCleanupMs n hn := by cases hn
  hitCleanupMs n hn := by cases hn
  offloadedCleanupMs n hn := by cases hn
  lastColdBuildMs := positive_none
  lastPodsMs := positive_none
  offloadedRuns n hn := by cases hn
  together := rfl
  firstRunAt := h
  lastRunAt := h

variable {run : StatsRun}

theorem formed_applyRun {bucket : Option StatsBucket} (h : ∀ b, bucket = some b → b.Formed)
    (hrun : run.Typed) (hat : at' ≠ []) (credit : Nat) :
    (applyRun bucket run at' credit).Formed := by
  have hbucket : (bucket.getD (newBucket at')).Formed := by
    cases bucket with
    | none => exact formed_newBucket hat
    | some b => exact h b rfl
  have hcold : Positive ((positive (runMs run).coldBuildMs).or
      (bucket.getD (newBucket at')).lastColdBuildMs) :=
    positive_or (positive_positive (isDouble_wholeMsOf hrun.coldBuildMs)) hbucket.lastColdBuildMs
  have hpods : Positive ((positive (runMs run).podsMs).or
      (bucket.getD (newBucket at')).lastPodsMs) :=
    positive_or (positive_positive (isDouble_wholeMsOf hrun.podsMs)) hbucket.lastPodsMs
  obtain ⟨hcoldCleanup, hhitCleanup, hoffCleanup, -, -, hoffloaded, htogether, hfirst, -⟩ := hbucket
  unfold applyRun
  simp only
  split_ifs with hfailed hhit hwaited
  · exact ⟨hcoldCleanup, hhitCleanup, hoffCleanup, hcold, hpods, hoffloaded, htogether, hfirst, hat⟩
  · exact ⟨hcoldCleanup, hhitCleanup, hoffCleanup, hcold, hpods, hoffloaded, htogether, hfirst, hat⟩
  · exact ⟨hcoldCleanup, addPositive_pos hhitCleanup, hoffCleanup, hcold, hpods, hoffloaded,
      htogether, hfirst, hat⟩
  · cases nonEmpty run.offloadedTo with
    | none =>
        exact ⟨addPositive_pos hcoldCleanup, hhitCleanup, hoffCleanup, hcold, hpods, hoffloaded,
          htogether, hfirst, hat⟩
    | some host =>
        refine ⟨hcoldCleanup, hhitCleanup, addPositive_pos hoffCleanup, hcold, hpods, ?_, rfl,
          hfirst, hat⟩
        intro n hn
        cases hn
        omega

/-! ## Totals of build machines -/

/-- The shape of totals that are read back. -/
structure BuildMachineTotals.Formed (totals : BuildMachineTotals) : Prop where
  offloaded : ∃ n : Nat, totals.offloaded = .whole n
  offloadedMs : ∃ n : Nat, totals.offloadedMs = .whole n
  savedMs : ∃ z : Int, totals.savedMs = .whole z
  fallbacks : ∃ n : Nat, totals.fallbacks = .whole n

theorem BuildMachineTotals.Formed.readable {totals : BuildMachineTotals} (h : totals.Formed)
    (hsmall : ∀ total ∈ [totals.offloaded, totals.offloadedMs, totals.savedMs, totals.fallbacks],
      ∀ z, total = .whole z → z.natAbs < 2 ^ 53) : totals.Readable := by
  obtain ⟨⟨n, hn⟩, ⟨m, hm⟩, ⟨z, hz⟩, ⟨k, hk⟩⟩ := h
  have hdouble : ∀ total ∈ [totals.offloaded, totals.offloadedMs, totals.savedMs,
      totals.fallbacks], ∀ z, total = .whole z → IsDouble z.natAbs :=
    fun total hmem z hz => JsNumber.isDouble_of_le (hsmall total hmem z hz).le
  exact ⟨⟨n, hn, hdouble _ (by simp) n hn⟩, ⟨m, hm, hdouble _ (by simp) m hm⟩,
    ⟨z, hz, hdouble _ (by simp) z hz⟩, ⟨k, hk, hdouble _ (by simp) k hk⟩⟩

theorem formed_newTotals : newTotals.Formed := ⟨⟨0, rfl⟩, ⟨0, rfl⟩, ⟨0, rfl⟩, ⟨0, rfl⟩⟩

theorem formed_applyPlacement {totals : Option BuildMachineTotals}
    (h : ∀ t, totals = some t → t.Formed) (placement : StatsPlacement) :
    (applyPlacement totals placement).Formed := by
  have htotals : (totals.getD newTotals).Formed := by
    cases totals with
    | none => exact formed_newTotals
    | some t => exact h t rfl
  obtain ⟨⟨n, hn⟩, ⟨m, hm⟩, ⟨z, hz⟩, ⟨k, hk⟩⟩ := htotals
  unfold applyPlacement
  simp only
  split_ifs with hfellBack
  · exact ⟨⟨n, hn⟩, ⟨m, hm⟩, ⟨z, hz⟩, ⟨k + 1, by rw [hk]; rfl⟩⟩
  · refine ⟨⟨n + 1, by rw [hn]; rfl⟩, ⟨m + placement.buildMs.getD 0, ?_⟩, ?_, ⟨k, hk⟩⟩
    · rw [hm, Total.plus]
      push_cast
      rfl
    · rw [hz]
      split
      · exact ⟨_, rfl⟩
      · exact ⟨z, rfl⟩

/-- Totals that are asked for are those of the machine, not what every object inherits. -/
theorem totalsOf_own {buildMachines : OrderedMap JsString BuildMachineTotals} {machine : JsString}
    (h : machine ∈ OBJECT_PROTOTYPE →
      buildMachines.entries = [] ∨ machine ∈ buildMachines.keys) :
    totalsOf buildMachines machine = buildMachines.get machine := by
  unfold totalsOf
  cases hget : buildMachines.get machine with
  | some totals => rfl
  | none =>
      apply if_neg
      intro hinherited
      rcases h hinherited.2 with hnil | hold
      · exact hinherited.1 hnil
      · exact OrderedMap.get_eq_none_iff.mp hget hold

/-! ## Maps -/

variable {α : Type}

theorem mem_assign {m : OrderedMap JsString α} {name : JsString} {a : α} {e : JsString × α}
    (h : e ∈ (assign m name a).entries) : e ∈ m.entries ∨ e.1 ≠ PROTO ∧ e.2 = a := by
  obtain ⟨key, value⟩ := e
  unfold assign at h
  split_ifs at h with hproto
  · exact Or.inl h
  · rcases OrderedMap.mem_setEntries.mp h with ⟨rfl, rfl⟩ | ⟨-, hold⟩
    · exact Or.inr ⟨hproto, rfl⟩
    · exact Or.inl hold

theorem proto_notMem_assign {m : OrderedMap JsString α} (h : PROTO ∉ m.keys) (name : JsString)
    (a : α) : PROTO ∉ (assign m name a).keys := by
  intro hmem
  obtain ⟨e, he, hkey⟩ := List.mem_map.mp hmem
  rcases mem_assign he with hold | ⟨hne, -⟩
  · exact h (hkey ▸ List.mem_map_of_mem hold)
  · exact hne hkey

theorem mem_assignAll {values : List (JsString × Option α)} {e : JsString × α}
    (h : e ∈ (assignAll values).entries) : e.1 ≠ PROTO ∧ ∃ v ∈ values, v.2 = some e.2 := by
  have hfold : ∀ (values : List (JsString × Option α)) (out : OrderedMap JsString α),
      e ∈ (values.foldl (fun out entry => (entry.2.map (assign out entry.1)).getD out)
        out).entries →
      e ∈ out.entries ∨ e.1 ≠ PROTO ∧ ∃ v ∈ values, v.2 = some e.2 := by
    intro values
    induction values with
    | nil => exact fun out h => Or.inl h
    | cons v rest ih =>
        intro out h
        rw [List.foldl_cons] at h
        rcases ih _ h with hout | ⟨hne, w, hw, heq⟩
        · obtain ⟨name, value⟩ := v
          cases value with
          | none => exact Or.inl hout
          | some a =>
              rcases mem_assign hout with hold | ⟨hne, heq⟩
              · exact Or.inl hold
              · exact Or.inr ⟨hne, (name, some a), List.mem_cons_self, congrArg some heq.symm⟩
        · exact Or.inr ⟨hne, w, List.mem_cons_of_mem _ hw, heq⟩
  rcases hfold values .empty h with hnil | hmem
  · exact absurd hnil List.not_mem_nil
  · exact hmem

/-! ## Samples -/

theorem isDouble_phaseMs {value : JsNumber} (h : value.IsValue) {n : Nat}
    (hn : phaseMs value = some n) : IsDouble n := by
  cases value with
  | nan => cases hn
  | infinite negative => cases hn
  | finite q =>
      rw [phaseMs] at hn
      split_ifs at hn
      cases hn
      exact isDouble_roundHalfUp h

theorem wholePhases_readable {phases : List (JsString × JsNumber)} (h : ∀ e ∈ phases, e.2.IsValue) :
    (∀ e ∈ (wholePhases phases).entries, IsDouble e.2) ∧ PROTO ∉ (wholePhases phases).keys := by
  constructor
  · intro e he
    obtain ⟨-, v, hv, hvalue⟩ := mem_assignAll he
    obtain ⟨entry, hentry, rfl⟩ := List.mem_map.mp hv
    exact isDouble_phaseMs (h entry hentry) hvalue
  · intro hmem
    obtain ⟨e, he, hkey⟩ := List.mem_map.mp hmem
    exact (mem_assignAll he).1 hkey

theorem mem_keepSamples : ∀ {samples : List RunSample} {setup other : Nat} {sample : RunSample},
    sample ∈ keepSamples samples setup other → sample ∈ samples := by
  intro samples
  induction samples with
  | nil => exact fun h => h
  | cons first rest ih =>
      intro setup other sample h
      rw [keepSamples] at h
      split_ifs at h
      · exact List.mem_cons_of_mem _ (ih h)
      · rcases List.mem_cons.mp h with rfl | hrest
        · exact List.mem_cons_self
        · exact List.mem_cons_of_mem _ (ih hrest)
      · exact List.mem_cons_of_mem _ (ih h)
      · rcases List.mem_cons.mp h with rfl | hrest
        · exact List.mem_cons_self
        · exact List.mem_cons_of_mem _ (ih hrest)

theorem mem_trimSamples {samples : List RunSample} {sample : RunSample}
    (h : sample ∈ trimSamples samples) : sample ∈ samples := by
  rw [trimSamples, List.mem_reverse] at h
  exact List.mem_reverse.mp (mem_keepSamples h)

theorem readable_noLists : RunLists.Readable ⟨[], []⟩ := by
  constructor
  · intro outcome sample h
    cases outcome <;> exact absurd h List.not_mem_nil
  · intro outcome
    cases outcome <;> exact ⟨Nat.zero_le _, Nat.zero_le _⟩

/-- A list is replaced by a trimmed one. -/
theorem readable_setLists {lists : RunLists} (h : lists.Readable) (outcome : RunOutcomeKind)
    {samples : List RunSample} (hsamples : ∀ sample ∈ samples, sample.Readable) :
    (lists.set outcome (trimSamples samples)).Readable := by
  have htrimmed : ∀ sample ∈ trimSamples samples, sample.Readable :=
    fun sample hmem => hsamples sample (mem_trimSamples hmem)
  have hshort := short_trimSamples samples
  cases outcome with
  | hit =>
      constructor
      · intro outcome
        cases outcome with
        | hit => exact htrimmed
        | cold => exact h.samples .cold
      · intro outcome
        cases outcome with
        | hit => exact hshort
        | cold => exact h.short .cold
  | cold =>
      constructor
      · intro outcome
        cases outcome with
        | hit => exact h.samples .hit
        | cold => exact htrimmed
      · intro outcome
        cases outcome with
        | hit => exact h.short .hit
        | cold => exact hshort

/-- The lists of a platform after one of them was set. -/
theorem get_set_cases {m : ByPlatform α} {platform other : StatsPlatform} {a b : α}
    (h : (m.set platform a).get other = some b) : m.get other = some b ∨ b = a := by
  by_cases heq : other = platform
  · rw [heq, get_set_self] at h
    exact Or.inr (Option.some.inj h).symm
  · rw [get_set_of_ne _ _ heq] at h
    exact Or.inl h

/-- The histories of a record, or the buckets, are what a property holds of. -/
def EachPlatform {α : Type} (P : α → Prop) (m : OrderedMap JsString (ByPlatform α)) : Prop :=
  ∀ e ∈ m.entries, ∀ platform a, e.2.get platform = some a → P a

/-- The value of a name, or an empty one. -/
theorem EachPlatform.get {P : α → Prop} {m : OrderedMap JsString (ByPlatform α)}
    (h : EachPlatform P m) {name : JsString} {platform : StatsPlatform} {a : α}
    (ha : ((m.get name).getD .empty).get platform = some a) : P a := by
  cases hget : m.get name with
  | none =>
      rw [hget, Option.getD_none, get_empty] at ha
      cases ha
  | some value =>
      rw [hget, Option.getD_some] at ha
      exact h (name, value) (OrderedMap.get_eq_some_iff.mp hget) platform a ha

/-- One value of one platform is set. -/
theorem EachPlatform.assign {P : α → Prop} {m : OrderedMap JsString (ByPlatform α)}
    (h : EachPlatform P m) (name : JsString) (platform : StatsPlatform) {a : α} (ha : P a) :
    EachPlatform P (assign m name (((m.get name).getD .empty).set platform a)) := by
  intro e he other b hb
  rcases mem_assign he with hold | ⟨-, hvalue⟩
  · exact h e hold other b hb
  · rw [hvalue] at hb
    rcases get_set_cases hb with hold | rfl
    · exact h.get hold
    · exact ha

theorem eachPlatform_addSample {history : OrderedMap JsString RunHistory}
    (h : EachPlatform RunLists.Readable history) (hrun : run.Typed)
    {phases : OrderedMap JsString JsNumber} (hphases : run.phases = some phases) (hat : at' ≠ []) :
    EachPlatform RunLists.Readable (addSample history run phases at') := by
  have hwhole := wholePhases_readable (hrun.phases phases hphases)
  unfold addSample
  simp only
  apply h.assign
  have hlists : ((((history.get run.projectKey).getD .empty).get run.platform).getD
      ⟨[], []⟩).Readable := by
    cases hget : ((history.get run.projectKey).getD .empty).get run.platform with
    | none => exact readable_noLists
    | some lists => exact h.get hget
  apply readable_setLists hlists
  intro sample hmem
  rcases List.mem_append.mp hmem with hold | hnew
  · exact hlists.samples _ sample hold
  · rw [List.mem_singleton.mp hnew]
    exact ⟨hat, isDouble_wholeMs hrun.durationMs, hwhole.1, hwhole.2⟩

/-! ## Placements and capacity -/

theorem mem_lastOf {limit : Nat} {list : List α} {a : α} (h : a ∈ lastOf limit list) :
    a ∈ list := List.mem_of_mem_drop h

variable {now : Nat}

theorem mem_trimCapacity {otherForms : JsString → Option Int} {time : α → JsString}
    {events : List α} {event : α} (h : event ∈ trimCapacity otherForms time events now) :
    event ∈ events := by
  have hsorted := mem_lastOf h
  rw [List.mem_mergeSort] at hsorted
  exact (List.mem_filter.mp hsorted).1

theorem mem_trimPlacements {otherForms : JsString → Option Int} {placements : List StatsPlacement}
    {placement : StatsPlacement} (h : placement ∈ trimPlacements otherForms placements now) :
    placement ∈ placements :=
  (List.mem_filter.mp (mem_lastOf h)).1

theorem nonEmpty_ne (text : Option JsString) : nonEmpty text ≠ some [] := by
  intro h
  rw [nonEmpty, Option.filter_eq_some_iff] at h
  simp at h

theorem readable_buildPlacement (hrun : run.Typed) {placement : RunPlacement}
    (hplacement : run.placement = some placement) {before : Option StatsBucket}
    (hbefore : ∀ b, before = some b → b.Formed) (hat : at' ≠ []) :
    (buildPlacement run placement before at').Readable := by
  have htyped := hrun.placement placement hplacement
  have hbuild : Values (if placement.decision = .offloaded then placement.buildMs
      else run.coldBuildMs) := by
    split_ifs
    · exact htyped.buildMs
    · exact hrun.coldBuildMs
  have hlocal : IsDouble ((before.bind StatsBucket.lastColdBuildMs).getD 0) := by
    have hzero : IsDouble 0 := JsNumber.isDouble_of_le (Nat.zero_le _)
    cases before with
    | none => exact hzero
    | some b =>
        cases hlast : b.lastColdBuildMs with
        | none => rw [Option.bind_some, hlast]; exact hzero
        | some n =>
            rw [Option.bind_some, hlast]
            exact ((hbefore b rfl).lastColdBuildMs n hlast).2
  exact {
    at' := hat
    machine := nonEmpty_ne _
    buildMs := positive_positive (isDouble_wholeMsOf hbuild)
    slotWaitMs := positive_positive (isDouble_wholeMsOf htyped.slotWaitMs)
    deviceSlotWaitMs := positive_positive (isDouble_wholeMsOf htyped.deviceSlotWaitMs)
    localEstimateMs := positive_positive hlocal }

theorem positive_reclaimedOf {reclaimed : Option JsNumber} (h : Values reclaimed) :
    Positive (reclaimedOf reclaimed) := by
  intro n hn
  unfold reclaimedOf at hn
  cases reclaimed with
  | none => cases hn
  | some value =>
      have hvalue := h value rfl
      rw [Option.bind_some] at hn
      cases hinteger : value.integer with
      | none =>
          rw [hinteger] at hn
          cases hn
      | some z =>
          rw [hinteger] at hn
          simp only at hn
          split_ifs at hn with hpos
          cases hn
          refine ⟨by omega, ?_⟩
          cases value with
          | nan => cases hinteger
          | infinite negative => cases hinteger
          | finite q =>
              rw [JsNumber.integer] at hinteger
              split_ifs at hinteger with hden
              cases hinteger
              have hq : ((q.num.toNat : Nat) : ℚ) = q := by
                have hnum : ((q.num : Int) : ℚ) = q := Rat.coe_int_num_of_den_eq_one hden
                rw [← hnum]
                exact_mod_cast Int.toNat_of_nonneg hpos.le
              rw [IsDouble, hq]
              exact hvalue

/-! ## Records -/

/-- The shape of a record that is read back, apart from the size of its sums. -/
structure StatsRecord.Formed (record : StatsRecord) : Prop where
  buckets : ∀ bucket, Bucket record bucket → bucket.Formed
  projectNames : PROTO ∉ record.projects.keys
  history : EachPlatform RunLists.Readable record.history
  historyNames : PROTO ∉ record.history.keys
  placements : ∀ placement ∈ record.placements, placement.Readable
  capacityRefusals : ∀ event ∈ record.capacityRefusals, event.Readable
  capacityWaits : ∀ event ∈ record.capacityWaits, event.Readable
  buildMachines : ∀ e ∈ record.buildMachines.entries, e.2.Formed
  machineNames : PROTO ∉ record.buildMachines.keys

variable {record : StatsRecord}

theorem StatsRecord.Formed.readable (h : record.Formed) (hsmall : record.Small) :
    record.Readable where
  machine platform bucket hb :=
    (h.buckets bucket (Or.inl ⟨platform, hb⟩)).readable
      (hsmall.buckets bucket (Or.inl ⟨platform, hb⟩))
  projects e he platform bucket hb :=
    (h.buckets bucket (Or.inr ⟨e, he, platform, hb⟩)).readable
      (hsmall.buckets bucket (Or.inr ⟨e, he, platform, hb⟩))
  projectNames := h.projectNames
  history := h.history
  historyNames := h.historyNames
  placements := h.placements
  capacityRefusals := h.capacityRefusals
  capacityWaits := h.capacityWaits
  buildMachines e he := (h.buildMachines e he).readable (hsmall.machines e he)
  machineNames := h.machineNames

theorem withoutZero_readable {lists kept : RunLists} (h : lists.Readable)
    (hkept : lists.withoutZero = some kept) : kept.Readable := by
  unfold RunLists.withoutZero at hkept
  simp only at hkept
  split_ifs at hkept
  cases hkept
  constructor
  · intro outcome sample hmem
    cases outcome with
    | hit => exact h.samples .hit sample (List.mem_filter.mp hmem).1
    | cold => exact h.samples .cold sample (List.mem_filter.mp hmem).1
  · intro outcome
    cases outcome with
    | hit => exact (h.short .hit).filter tookTime
    | cold => exact (h.short .cold).filter tookTime

theorem mem_filterMap_entries {α β : Type} {m : OrderedMap JsString α}
    {f : JsString → α → Option β} {e : JsString × β} (h : e ∈ (m.filterMap f).entries) :
    ∃ a, (e.1, a) ∈ m.entries ∧ f e.1 a = some e.2 := by
  obtain ⟨entry, hentry, hvalue⟩ := List.mem_filterMap.mp h
  obtain ⟨b, hb, rfl⟩ := Option.map_eq_some_iff.mp hvalue
  exact ⟨entry.2, hentry, hb⟩

theorem eachPlatform_withoutZero {history : OrderedMap JsString RunHistory}
    (h : EachPlatform RunLists.Readable history) :
    EachPlatform RunLists.Readable (history.filterMap fun _ history => history.withoutZero) := by
  intro e he platform lists hlists
  obtain ⟨before, hbefore, hkept⟩ := mem_filterMap_entries he
  simp only [RunHistory.withoutZero] at hkept
  split_ifs at hkept
  have hvalue := Option.some.inj hkept
  rw [← hvalue] at hlists
  cases platform with
  | ios =>
      obtain ⟨old, hold, hlists⟩ := Option.bind_eq_some_iff.mp hlists
      exact withoutZero_readable (h _ hbefore .ios old hold) hlists
  | android =>
      obtain ⟨old, hold, hlists⟩ := Option.bind_eq_some_iff.mp hlists
      exact withoutZero_readable (h _ hbefore .android old hold) hlists

/-- What is read back of a record has its shape. -/
theorem StatsRecord.Formed.withoutZeroSamples (h : record.Formed) :
    record.withoutZeroSamples.Formed where
  buckets := h.buckets
  projectNames := h.projectNames
  history := eachPlatform_withoutZero h.history
  historyNames := by
    intro hmem
    obtain ⟨e, he, hkey⟩ := List.mem_map.mp hmem
    obtain ⟨before, hbefore, -⟩ := mem_filterMap_entries he
    exact h.historyNames (List.mem_map.mpr ⟨(e.1, before), hbefore, hkey⟩)
  placements := h.placements
  capacityRefusals := h.capacityRefusals
  capacityWaits := h.capacityWaits
  buildMachines := h.buildMachines
  machineNames := h.machineNames

theorem formed_emptyStats : emptyStats.Formed where
  buckets := by
    rintro bucket (⟨platform, hb⟩ | ⟨e, he, -⟩)
    · rw [emptyStats, get_empty] at hb
      cases hb
    · exact absurd he List.not_mem_nil
  projectNames := List.not_mem_nil
  history := fun e he => absurd he List.not_mem_nil
  historyNames := List.not_mem_nil
  placements := fun _ h => absurd h List.not_mem_nil
  capacityRefusals := fun _ h => absurd h List.not_mem_nil
  capacityWaits := fun _ h => absurd h List.not_mem_nil
  buildMachines := fun _ h => absurd h List.not_mem_nil
  machineNames := List.not_mem_nil

/-- A property of each bucket of a record, which one run's buckets have too. -/
theorem bucket_updateStats {P : StatsBucket → Prop} (otherForms : JsString → Option Int)
    (h : ∀ bucket, Bucket record bucket → P bucket)
    (hrun : ∀ before : Option StatsBucket, (∀ b, before = some b → P b) → ∀ credit,
      P (applyRun before run (IsoDate.toISOString now) credit)) :
    ∀ bucket, Bucket (updateStats otherForms record run now) bucket → P bucket := by
  have hprojects : EachPlatform P record.projects :=
    fun e he platform b hb => h b (Or.inr ⟨e, he, platform, hb⟩)
  have hbefore : ∀ b, ((record.projects.get run.projectKey).getD .empty).get run.platform =
      some b → P b := fun b hb => hprojects.get hb
  rintro bucket (⟨platform, hb⟩ | ⟨e, he, platform, hb⟩)
  · rcases get_set_cases hb with hold | rfl
    · exact h bucket (Or.inl ⟨platform, hold⟩)
    · exact hrun _ (fun b hb => h b (Or.inl ⟨run.platform, hb⟩)) _
  · exact hprojects.assign run.projectKey run.platform (hrun _ hbefore _) e he platform bucket hb

theorem formed_updateMachines {buildMachines : OrderedMap JsString BuildMachineTotals}
    (h : ∀ e ∈ buildMachines.entries, e.2.Formed) (hnames : PROTO ∉ buildMachines.keys)
    {placement : StatsPlacement}
    (hown : ∀ machine, placement.decision ≠ .here → placement.machine = some machine →
      machine ≠ PROTO ∧ (machine ∈ OBJECT_PROTOTYPE →
        buildMachines.entries = [] ∨ machine ∈ buildMachines.keys)) :
    (∀ e ∈ (updateMachines buildMachines placement).entries, e.2.Formed) ∧
      PROTO ∉ (updateMachines buildMachines placement).keys := by
  unfold updateMachines
  cases hmachine : placement.machine with
  | none => exact ⟨h, hnames⟩
  | some machine =>
      simp only
      split_ifs with hhere
      · exact ⟨h, hnames⟩
      · obtain ⟨hproto, hinherited⟩ := hown machine hhere hmachine
        rw [totalsOf_own hinherited]
        have hset : ∀ e ∈ (buildMachines.set machine (applyPlacement
            (buildMachines.get machine) placement)).entries,
            e ∈ buildMachines.entries ∨ e.1 = machine ∧
              e.2 = applyPlacement (buildMachines.get machine) placement := by
          intro e he
          rcases OrderedMap.mem_setEntries.mp he with hnew | hold
          · exact Or.inr hnew
          · exact Or.inl hold.2
        constructor
        · intro e he
          rcases hset e he with hold | ⟨-, hvalue⟩
          · exact h e hold
          · rw [hvalue]
            exact formed_applyPlacement
              (fun t ht => h (machine, t) (OrderedMap.get_eq_some_iff.mp ht)) placement
        · intro hmem
          obtain ⟨e, he, hkey⟩ := List.mem_map.mp hmem
          rcases hset e he with hold | ⟨hname, -⟩
          · exact hnames (List.mem_map.mpr ⟨e, hold, hkey⟩)
          · exact hproto (hname.symm.trans hkey)

/-- A run keeps the shape of the record. -/
theorem formed_updateStats (otherForms : JsString → Option Int) (h : record.Formed)
    (hrun : run.Typed) (now : Nat) (hown : NamesOwn record (.run run)) :
    (updateStats otherForms record run now).Formed := by
  have hat : IsoDate.toISOString now ≠ [] := IsoDate.toISOString_ne_nil now
  have hbefore : ∀ b, ((record.projects.get run.projectKey).getD .empty).get run.platform =
      some b → b.Formed := by
    intro b hb
    have hprojects : EachPlatform StatsBucket.Formed record.projects :=
      fun e he platform b hb => h.buckets b (Or.inr ⟨e, he, platform, hb⟩)
    exact hprojects.get hb
  have hmachines : (∀ e ∈ (updateStats otherForms record run now).buildMachines.entries,
      e.2.Formed) ∧ PROTO ∉ (updateStats otherForms record run now).buildMachines.keys := by
    unfold updateStats
    simp only
    cases hplacement : run.placement with
    | none => exact ⟨h.buildMachines, h.machineNames⟩
    | some placement =>
        exact formed_updateMachines h.buildMachines h.machineNames fun machine hhere hmachine =>
          hown.2 placement machine hplacement hhere hmachine
  have hhistory : EachPlatform RunLists.Readable (updateStats otherForms record run now).history ∧
      PROTO ∉ (updateStats otherForms record run now).history.keys := by
    unfold updateStats
    simp only
    cases hphases : run.phases with
    | none => exact ⟨h.history, h.historyNames⟩
    | some phases =>
        simp only
        split_ifs
        · exact ⟨h.history, h.historyNames⟩
        · exact ⟨eachPlatform_addSample h.history hrun hphases hat,
            proto_notMem_assign h.historyNames _ _⟩
  exact {
    buckets := bucket_updateStats otherForms h.buckets fun before hb credit =>
      formed_applyRun hb hrun hat credit
    projectNames := proto_notMem_assign h.projectNames _ _
    history := hhistory.1
    historyNames := hhistory.2
    placements := by
      unfold updateStats
      simp only
      cases hplacement : run.placement with
      | none => exact h.placements
      | some placement =>
          intro kept hmem
          rcases List.mem_append.mp (mem_trimPlacements hmem) with hold | hnew
          · exact h.placements kept hold
          · rw [List.mem_singleton.mp hnew]
            exact readable_buildPlacement hrun hplacement hbefore hat
    capacityRefusals := fun event hmem => h.capacityRefusals event (mem_trimCapacity hmem)
    capacityWaits := fun event hmem => h.capacityWaits event (mem_trimCapacity hmem)
    buildMachines := hmachines.1
    machineNames := hmachines.2 }

theorem formed_updateRecord (otherForms : JsString → Option Int) (h : record.Formed)
    {call : StatsCall} (hcall : call.Typed) (hnow : now ≤ IsoDate.MAX_TIME)
    (hown : NamesOwn record call) : (updateRecord otherForms record call now).Formed := by
  have htime : ∃ t : Int, t.natAbs ≤ IsoDate.MAX_TIME ∧
      IsoDate.toISOString now = IsoDate.toISOString t := ⟨now, by omega, rfl⟩
  cases call with
  | run run => exact formed_updateStats otherForms h hcall now hown
  | refusal event =>
      refine { h with capacityRefusals := ?_ }
      intro kept hmem
      rcases List.mem_append.mp (mem_trimCapacity hmem) with hold | hnew
      · exact h.capacityRefusals kept hold
      · rw [List.mem_singleton.mp hnew]
        exact ⟨htime, hcall.max, hcall.workspace⟩
  | wait event =>
      refine { h with capacityWaits := ?_ }
      intro kept hmem
      obtain ⟨htyped, hms, hreclaimed⟩ := hcall
      rcases List.mem_append.mp (mem_trimCapacity hmem) with hold | hnew
      · exact h.capacityWaits kept hold
      · rw [List.mem_singleton.mp hnew]
        exact ⟨htime, htyped.max, htyped.workspace, isDouble_wholeMs hms,
          positive_reclaimedOf hreclaimed⟩

/-! ## Sums -/

/-- The sums of a record add up, in each bucket and over the projects. -/
structure StatsRecord.AddsUp (record : StatsRecord) : Prop where
  buckets : ∀ bucket, Bucket record bucket → bucket.Consistent
  balanced : Balanced record

theorem addsUp_emptyStats : emptyStats.AddsUp where
  buckets := by
    rintro bucket (⟨platform, hb⟩ | ⟨e, he, -⟩)
    · rw [emptyStats, get_empty] at hb
      cases hb
    · exact absurd he List.not_mem_nil
  balanced := by
    intro platform sum
    rw [emptyStats, get_empty]
    rfl

theorem addsUp_updateRecord (otherForms : JsString → Option Int) (h : record.AddsUp)
    {call : StatsCall} (now : Nat) (hown : NamesOwn record call) :
    (updateRecord otherForms record call now).AddsUp := by
  cases call with
  | run run =>
      exact ⟨bucket_updateStats otherForms h.buckets fun before hb credit =>
        Consistent.applyRun hb run _ credit, balanced_updateStats otherForms h.balanced run now hown.1⟩
  | refusal event => exact ⟨h.buckets, h.balanced⟩
  | wait event => exact ⟨h.buckets, h.balanced⟩

/-! ## Runs -/

section

variable (otherForms : JsString → Option Int)

/-- Calls in which no name is taken for one that objects inherit, with sums that stay below `2 ^ 53`. -/
inductive Meets : List (StatsCall × Nat) → Prop
  | nil : Meets []
  | snoc {calls : List (StatsCall × Nat)} {call : StatsCall} {now : Nat} (h : Meets calls)
      (hnow : now ≤ IsoDate.MAX_TIME) (hcall : call.Typed)
      (hown : ∀ record,
        (loadForUpdate otherForms (after otherForms calls).files now (isRun call)).record =
          some record → NamesOwn record call)
      (hsmall : ∀ record, (after otherForms (calls ++ [(call, now)])).written = some record →
        record.Small) : Meets (calls ++ [(call, now)])

theorem after_snoc (calls : List (StatsCall × Nat)) (call : StatsCall) (now : Nat) :
    after otherForms (calls ++ [(call, now)]) =
      recordStats otherForms (after otherForms calls).files call now := by
  rw [after, List.foldl_append, List.foldl_cons, List.foldl_nil]
  rfl

/-- The state between calls: no file yet, or the text of a record that is read back. -/
def Kept (result : StatsResult) : Prop :=
  result.files.file = none ∨ ∃ record, result.written = some record ∧
    result.files.file = some (statsText record) ∧ record.Readable ∧ record.Formed ∧ record.AddsUp

/-- What a call loads. -/
theorem loadForUpdate_of_kept {result : StatsResult} (h : Kept result) (now : Nat)
    (recoverCorrupt : Bool) :
    ∃ record, loadForUpdate otherForms result.files now recoverCorrupt =
      { record := some record, files := result.files, note := none } ∧
      record.Formed ∧ record.AddsUp := by
  rcases h with hnone | ⟨record, -, hfile, hreadable, hformed, hadds⟩
  · refine ⟨emptyStats, ?_, formed_emptyStats, addsUp_emptyStats⟩
    rw [loadForUpdate, hnone]
  · refine ⟨record.withoutZeroSamples, ?_, hformed.withoutZeroSamples,
      ⟨hadds.buckets, hadds.balanced⟩⟩
    rw [loadForUpdate, hfile]
    simp only [decodeStats_statsText otherForms hreadable]

/-- A call writes a record, and keeps what the next one relies on. -/
theorem kept_recordStats {result : StatsResult} (h : Kept result) {call : StatsCall} {now : Nat}
    (hnow : now ≤ IsoDate.MAX_TIME) (hcall : call.Typed)
    (hown : ∀ record, (loadForUpdate otherForms result.files now (isRun call)).record =
      some record → NamesOwn record call)
    (hsmall : ∀ record, (recordStats otherForms result.files call now).written = some record →
      record.Small) :
    ∃ record, (recordStats otherForms result.files call now).written = some record ∧
      (recordStats otherForms result.files call now).files.file = some (statsText record) ∧
      record.Readable ∧ record.Formed ∧ record.AddsUp := by
  obtain ⟨record, hload, hformed, hadds⟩ :=
    loadForUpdate_of_kept otherForms h now (isRun call)
  have hnames : NamesOwn record call := hown record (by rw [hload])
  have hresult : recordStats otherForms result.files call now =
      writeStats result.files (updateRecord otherForms record call now) none := by
    rw [recordStats, hload]
  rw [hresult] at hsmall ⊢
  have hnext := formed_updateRecord otherForms hformed hcall hnow hnames
  exact ⟨updateRecord otherForms record call now, rfl, rfl, hnext.readable (hsmall _ rfl), hnext,
    addsUp_updateRecord otherForms hadds now hnames⟩

theorem kept_after {calls : List (StatsCall × Nat)} (h : Meets otherForms calls) :
    Kept (after otherForms calls) ∧ (calls ≠ [] → ∃ record,
      (after otherForms calls).written = some record ∧
      (after otherForms calls).files.file = some (statsText record) ∧
      record.Readable ∧ record.Formed ∧ record.AddsUp) := by
  induction h with
  | nil => exact ⟨Or.inl rfl, fun hne => absurd rfl hne⟩
  | @snoc calls call now h hnow hcall hown hsmall ih =>
      rw [after_snoc] at hsmall ⊢
      have hkept := kept_recordStats otherForms ih.1 hnow hcall hown hsmall
      exact ⟨Or.inr hkept, fun _ => hkept⟩

/-- After every call of such a run, what is read back of the written text is the written record
without the samples of runs that took no time; in every bucket the outcomes add up, and the sums of
the machine are those of the projects. -/
theorem statistics_add_up {calls : List (StatsCall × Nat)} (h : Meets otherForms calls)
    (hne : calls ≠ []) :
    ∃ record text, (after otherForms calls).written = some record ∧
      (after otherForms calls).files.file = some text ∧
      decodeStats otherForms text = .record record.withoutZeroSamples ∧
      (∀ bucket, Bucket record bucket → bucket.Consistent) ∧ Balanced record := by
  obtain ⟨record, hwritten, hfile, hreadable, -, hadds⟩ := (kept_after otherForms h).2 hne
  exact ⟨record, statsText record, hwritten, hfile, decodeStats_statsText otherForms hreadable,
    hadds.buckets, hadds.balanced⟩

end

/-! ## One run, and two -/

/-- A run of a minute whose build a machine made in twenty seconds. -/
def offloadedRun (machine : String) : StatsRun where
  platform := .ios
  projectKey := JsString.ofString "/repo/app"
  failed := false
  cacheHit := .miss
  waitedForBuild := false
  durationMs := .finite (60000 : Nat)
  offloadedTo := some (JsString.ofString machine)
  coldBuildMs := none
  podsMs := none
  phases := none
  cleanupMs := none
  deviceSetup := none
  placement := some {
    decision := .offloaded
    reason := JsString.ofString "this machine is busy"
    machine := some (JsString.ofString machine)
    slotWaitMs := none
    deviceSlotWaitMs := none
    buildMs := some (.finite (20000 : Nat)) }

theorem typed_offloadedRun (machine : String) : (offloadedRun machine).Typed where
  durationMs := JsNumber.isDouble_of_le (by omega)
  coldBuildMs := fun v hv => by cases hv
  podsMs := fun v hv => by cases hv
  phases := fun phases hphases => by cases hphases
  placement := by
    intro placement hplacement
    cases hplacement
    constructor
    · intro v hv
      cases hv
    · intro v hv
      cases hv
    · intro v hv
      cases hv
      exact JsNumber.isDouble_of_le (by omega)

/-- The buckets of the first run are new ones. -/
theorem bucket_first {otherForms : JsString → Option Int} {bucket : StatsBucket}
    (h : Bucket (updateStats otherForms emptyStats run now) bucket) :
    ∃ credit, bucket = applyRun none run (IsoDate.toISOString now) credit := by
  have hnone : ∀ platform, emptyStats.machine.get platform = none := get_empty
  rcases h with ⟨platform, hb⟩ | ⟨e, he, platform, hb⟩
  · rcases get_set_cases hb with hold | hnew
    · rw [hnone] at hold
      cases hold
    · rw [hnone] at hnew
      exact ⟨_, hnew⟩
  · rcases mem_assign he with hold | ⟨-, hvalue⟩
    · exact absurd hold List.not_mem_nil
    · have hscope : (emptyStats.projects.get run.projectKey).getD .empty =
          (.empty : StatsScope) := rfl
      rw [hvalue, hscope] at hb
      rcases get_set_cases hb with hold | hnew
      · rw [get_empty] at hold
        cases hold
      · rw [get_empty] at hnew
        exact ⟨_, hnew⟩

/-- A miss adds to a sum one, or at most the time it took. -/
theorem of_miss_le (sum : StatsSum) (hmiss : run.cacheHit = .miss) (at' : JsString) (credit : Nat) :
    sum.of (applyRun none run at' credit) ≤ (runMs run).durationMs + 1 := by
  have hcleanup := cleanupMs_le run
  unfold applyRun
  simp only [hmiss, isHit, Bool.false_eq_true, if_false]
  split_ifs with hfailed
  · cases sum <;> simp [StatsSum.of, newBucket]
  · cases nonEmpty run.offloadedTo with
    | none =>
        cases sum <;> simp only [StatsSum.of, newBucket, getD_addPositive, Option.getD_none] <;>
          omega
    | some host =>
        cases sum <;> simp only [StatsSum.of, newBucket, getD_addPositive, Option.getD_none,
          Option.getD_some] <;> omega

/-- The first record has totals of one machine. -/
theorem machines_first (otherForms : JsString → Option Int) (now : Nat) :
    (updateStats otherForms emptyStats (offloadedRun "mini") now).buildMachines.entries =
      [(JsString.ofString "mini", {
        offloaded := .whole 1
        offloadedMs := .whole 20000
        savedMs := .whole 0
        fallbacks := .whole 0
        lastOffloadAt := some (IsoDate.toISOString now)
        lastFallbackAt := none })] := by
  have hms : wholeMs (.finite ((20000 : Nat) : ℚ)) = 20000 := wholeMs_natCast 20000
  unfold updateStats
  simp only [offloadedRun, Option.map_some]
  have hname : nonEmpty (some (JsString.ofString "mini")) = some (JsString.ofString "mini") := rfl
  have htotals : totalsOf emptyStats.buildMachines (JsString.ofString "mini") = none := rfl
  have hbefore : (((emptyStats.projects.get (JsString.ofString "/repo/app")).getD .empty).get
      .ios).bind StatsBucket.lastColdBuildMs = none := rfl
  unfold updateMachines buildPlacement
  simp only [wholeMsOf, Option.map_some, Option.map_none, Option.getD_some, Option.getD_none,
    if_true, hms, hname, htotals, hbefore, positive, Nat.lt_irrefl, if_false]
  rw [if_neg (by decide), if_pos (by omega)]
  simp only [applyPlacement, newTotals, Option.getD_none, Option.getD_some, Total.plus]
  rw [if_neg (by decide), OrderedMap.entries_set_of_notMem List.not_mem_nil]
  simp [emptyStats, OrderedMap.empty]

/-- What the first call leaves. -/
theorem after_first (otherForms : JsString → Option Int) (call : StatsCall) (now : Nat) :
    after otherForms [(call, now)] =
      writeStats { file := none, aside := [] } (updateRecord otherForms emptyStats call now)
        none := rfl

theorem small_first (otherForms : JsString → Option Int) (now : Nat) :
    (updateStats otherForms emptyStats (offloadedRun "mini") now).Small where
  buckets := by
    intro bucket hb sum
    obtain ⟨credit, rfl⟩ := bucket_first hb
    have hms : (runMs (offloadedRun "mini")).durationMs = 60000 := wholeMs_natCast 60000
    have hmiss : (offloadedRun "mini").cacheHit = .miss := rfl
    have hle := of_miss_le sum hmiss (IsoDate.toISOString now) credit
    omega
  machines := by
    intro e he total hmem z hz
    rw [machines_first, List.mem_singleton] at he
    subst he
    simp only [List.mem_cons, List.not_mem_nil, or_false] at hmem
    rcases hmem with rfl | rfl | rfl | rfl
    all_goals
      cases hz
      omega

/-- One run on a day in June. -/
theorem meets_first (otherForms : JsString → Option Int) :
    Meets otherForms [(.run (offloadedRun "mini"), 1782036000000)] := by
  refine Meets.snoc .nil (by unfold IsoDate.MAX_TIME; omega) (typed_offloadedRun "mini") ?_ ?_
  · intro record hrecord
    have hempty : emptyStats = record := Option.some.inj hrecord
    subst hempty
    refine ⟨by decide, fun placement machine hplacement _ hmachine => ?_⟩
    cases hplacement
    cases hmachine
    exact ⟨by decide, fun _ => Or.inl rfl⟩
  · intro record hrecord
    rw [List.nil_append, after_first] at hrecord
    rw [← Option.some.inj hrecord]
    exact small_first otherForms 1782036000000

theorem statistics_add_up_of_run :
    ∃ record text,
      (after (fun _ => none) [(.run (offloadedRun "mini"), 1782036000000)]).written =
        some record ∧
      (after (fun _ => none) [(.run (offloadedRun "mini"), 1782036000000)]).files.file =
        some text ∧
      decodeStats (fun _ => none) text = .record record.withoutZeroSamples ∧
      (∀ bucket, Bucket record bucket → bucket.Consistent) ∧ Balanced record :=
  statistics_add_up (fun _ => none) (meets_first _) (List.cons_ne_nil _ _)

/-- Totals that are read are numbers. -/
theorem whole_of_decodeStats {otherForms : JsString → Option Int} {text : JsString}
    (h : decodeStats otherForms text = .record record) :
    ∀ e ∈ record.buildMachines.entries, ∃ z, e.2.offloaded = .whole z := by
  intro e he
  unfold decodeStats at h
  split at h
  · next members hparse =>
    split at h
    · cases h
    · split_ifs at h
      cases h
      unfold normalize assignEach at he
      simp only at he
      split at he
      · exact absurd he List.not_mem_nil
      · next totals htotals =>
        obtain ⟨-, v, hv, hvalue⟩ := mem_assignAll he
        obtain ⟨entry, -, rfl⟩ := List.mem_map.mp hv
        obtain ⟨m, -, hm⟩ := Option.map_eq_some_iff.mp hvalue
        rw [← hm]
        exact ⟨_, rfl⟩
  · cases h

/-- What a build on the machine `constructor` makes of totals of another machine. -/
theorem nan_of_constructor (otherForms : JsString → Option Int) {totals : BuildMachineTotals}
    (h : record.buildMachines.entries = [(JsString.ofString "mini", totals)]) (now : Nat) :
    ∃ lost, (JsString.ofString "constructor", lost) ∈
      (updateStats otherForms record (offloadedRun "constructor") now).buildMachines.entries ∧
      lost.offloaded = .nan := by
  have hname : nonEmpty (some (JsString.ofString "constructor")) =
      some (JsString.ofString "constructor") := rfl
  have hnone : record.buildMachines.get (JsString.ofString "constructor") = none := by
    rw [OrderedMap.get_eq_none_iff, OrderedMap.keys, h]
    intro hmem
    have hsame : JsString.ofString "constructor" = JsString.ofString "mini" :=
      List.mem_singleton.mp hmem
    exact absurd hsame (by decide)
  have htotals : totalsOf record.buildMachines (JsString.ofString "constructor") =
      some inheritedTotals := by
    rw [totalsOf, hnone]
    apply if_pos
    rw [h]
    exact ⟨List.cons_ne_nil _ _, by decide⟩
  unfold updateStats
  simp only [offloadedRun, Option.map_some]
  unfold updateMachines buildPlacement
  simp only [hname, htotals]
  rw [if_neg (by decide)]
  refine ⟨_, OrderedMap.mem_setEntries.mpr (Or.inl ⟨rfl, rfl⟩), ?_⟩
  rw [applyPlacement]
  simp only
  rw [if_neg (by decide)]
  rfl

/-- A build on the machine `constructor` after one on another machine: its totals are `NaN` in the
record, and numbers in what is read of the text. -/
theorem statistics_lost_of_constructor :
    ∃ record text,
      (after (fun _ => none) [(.run (offloadedRun "mini"), 1782036000000),
        (.run (offloadedRun "constructor"), 1782036060000)]).written = some record ∧
      (after (fun _ => none) [(.run (offloadedRun "mini"), 1782036000000),
        (.run (offloadedRun "constructor"), 1782036060000)]).files.file = some text ∧
      decodeStats (fun _ => none) text ≠ .record record.withoutZeroSamples := by
  obtain ⟨first, hwritten, hfile, hreadable, -, -⟩ :=
    (kept_after _ (meets_first fun _ => none)).2 (List.cons_ne_nil _ _)
  have hfirst : updateStats (fun _ => none) emptyStats (offloadedRun "mini") 1782036000000 =
      first := by
    rw [after_first] at hwritten
    exact Option.some.inj hwritten
  have hmachines := machines_first (fun _ => none) 1782036000000
  rw [hfirst] at hmachines
  obtain ⟨lost, hlost, hnan⟩ := nan_of_constructor (fun _ => none)
    hmachines 1782036060000
  have hsecond := after_snoc (fun _ => none) [(.run (offloadedRun "mini"), 1782036000000)]
    (.run (offloadedRun "constructor")) 1782036060000
  rw [recordStats, loadForUpdate, hfile] at hsecond
  simp only [decodeStats_statsText _ hreadable] at hsecond
  rw [List.singleton_append] at hsecond
  refine ⟨_, _, congrArg StatsResult.written hsecond,
    congrArg (fun result => result.files.file) hsecond, ?_⟩
  intro hread
  obtain ⟨z, hz⟩ := whole_of_decodeStats hread _ hlost
  rw [hnan] at hz
  cases hz

end RunStats
end Stim
