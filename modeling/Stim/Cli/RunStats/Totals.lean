import Stim.Cli.RunStats.RoundTrip

/-!
# Statistics add up

What one run adds to a bucket does not depend on the bucket, and the machine's bucket and the
project's are given the same run.  So each sum of the machine is that of the projects, whatever the
outcomes were, and within a bucket the outcomes add up.
-/

namespace Stim.RunStats

open JsNumber (IsDouble)

/-! ## Sums of a bucket -/

/-- The counts and sums of milliseconds of a bucket. -/
inductive StatsSum where
  | runs
  | failed
  | hits
  | misses
  | coldRuns
  | coldRunMs
  | coldCleanupMs
  | hitRuns
  | hitRunMs
  | hitCleanupMs
  | timeSavedMs
  | offloadedRuns
  | offloadedRunMs
  | offloadedCleanupMs

def StatsSum.of (bucket : StatsBucket) : StatsSum → Nat
  | .runs => bucket.runs
  | .failed => bucket.failed
  | .hits => bucket.hits
  | .misses => bucket.misses
  | .coldRuns => bucket.coldRuns
  | .coldRunMs => bucket.coldRunMs
  | .coldCleanupMs => bucket.coldCleanupMs.getD 0
  | .hitRuns => bucket.hitRuns
  | .hitRunMs => bucket.hitRunMs
  | .hitCleanupMs => bucket.hitCleanupMs.getD 0
  | .timeSavedMs => bucket.timeSavedMs
  | .offloadedRuns => bucket.offloadedRuns.getD 0
  | .offloadedRunMs => bucket.offloadedRunMs.getD 0
  | .offloadedCleanupMs => bucket.offloadedCleanupMs.getD 0

/-- A sum of a bucket that may be missing. -/
def StatsSum.ofBucket (sum : StatsSum) (bucket : Option StatsBucket) : Nat :=
  (bucket.map fun b => sum.of b).getD 0

/-- How the sums of one bucket add up. -/
structure StatsBucket.Consistent (bucket : StatsBucket) : Prop where
  runs : bucket.runs = bucket.failed + bucket.hits + bucket.misses
  misses : bucket.misses = bucket.coldRuns + bucket.offloadedRuns.getD 0
  hitRuns : bucket.hitRuns ≤ bucket.hits
  coldCleanupMs : bucket.coldCleanupMs.getD 0 ≤ bucket.coldRunMs
  hitCleanupMs : bucket.hitCleanupMs.getD 0 ≤ bucket.hitRunMs
  offloadedCleanupMs : bucket.offloadedCleanupMs.getD 0 ≤ bucket.offloadedRunMs.getD 0

@[simp] theorem getD_addPositive (sum : Option Nat) (ms : Nat) :
    (addPositive sum ms).getD 0 = sum.getD 0 + ms := by
  unfold addPositive
  split_ifs with hpos
  · rfl
  · omega

/-- What a run adds to a sum does not depend on the bucket. -/
theorem of_applyRun (sum : StatsSum) (bucket : StatsBucket) (run : StatsRun) (at' : JsString)
    (credit : Nat) :
    sum.of (applyRun (some bucket) run at' credit) =
      sum.of bucket + sum.of (applyRun none run at' credit) := by
  unfold applyRun
  simp only [Option.getD_some, Option.getD_none]
  split_ifs with hfailed hhit hwaited
  · cases sum <;> simp [StatsSum.of, newBucket]
  · cases sum <;> simp [StatsSum.of, newBucket]
  · cases sum <;> simp [StatsSum.of, newBucket]
  · cases nonEmpty run.offloadedTo with
    | none => cases sum <;> simp [StatsSum.of, newBucket]
    | some host => cases sum <;> simp [StatsSum.of, newBucket]

theorem ofBucket_applyRun (sum : StatsSum) (bucket : Option StatsBucket) (run : StatsRun)
    (at' : JsString) (credit : Nat) :
    sum.of (applyRun bucket run at' credit) =
      sum.ofBucket bucket + sum.of (applyRun none run at' credit) := by
  cases bucket with
  | none => exact (Nat.zero_add _).symm
  | some bucket => exact of_applyRun sum bucket run at' credit

/-- A run that took part of its time to clean up took at least that time. -/
theorem cleanupMs_le (run : StatsRun) : (runMs run).cleanupMs ≤ (runMs run).durationMs :=
  Nat.min_le_left _ _

theorem consistent_newBucket (at' : JsString) : (newBucket at').Consistent :=
  ⟨rfl, rfl, le_rfl, le_rfl, le_rfl, le_rfl⟩

theorem Consistent.applyRun {bucket : Option StatsBucket}
    (h : ∀ b, bucket = some b → b.Consistent) (run : StatsRun) (at' : JsString) (credit : Nat) :
    (applyRun bucket run at' credit).Consistent := by
  have hbucket : (bucket.getD (newBucket at')).Consistent := by
    cases bucket with
    | none => exact consistent_newBucket at'
    | some b => exact h b rfl
  obtain ⟨hruns, hmisses, hhits, hcold, hhit, hoffloaded⟩ := hbucket
  have hcleanup := cleanupMs_le run
  unfold RunStats.applyRun
  simp only
  split_ifs with hfailed hhit hwaited
  · constructor <;> simp only <;> omega
  · constructor <;> simp only <;> omega
  · constructor <;> simp only [getD_addPositive] <;> omega
  · cases nonEmpty run.offloadedTo with
    | none => constructor <;> simp only [getD_addPositive] <;> omega
    | some host => constructor <;> simp only [getD_addPositive, Option.getD_some] <;> omega

/-! ## Sums over a map -/

variable {α : Type}

/-- One value of a list of entries is replaced, and its part of the sum with it. -/
theorem sum_replace (f : α → Nat) (name : JsString) (a : α) {entries : List (JsString × α)}
    (hnodup : (entries.map Prod.fst).Nodup) (hmem : name ∈ entries.map Prod.fst) :
    ((entries.map fun e => if e.1 = name then (name, a) else e).map fun e => f e.2).sum +
      (((entries.find? fun e => decide (e.1 = name)).map Prod.snd).map f).getD 0 =
      (entries.map fun e => f e.2).sum + f a := by
  induction entries with
  | nil => exact absurd hmem List.not_mem_nil
  | cons e rest ih =>
      rw [List.map_cons, List.nodup_cons] at hnodup
      by_cases hname : e.1 = name
      · have hkept : ∀ e ∈ rest, (if e.1 = name then (name, a) else e) = e := by
          intro e' he'
          rw [if_neg]
          intro heq
          rw [hname, ← heq] at hnodup
          exact hnodup.1 (List.mem_map_of_mem he')
        rw [List.map_cons, if_pos hname, List.map_congr_left hkept, List.map_id',
          List.find?_cons_of_pos (by simpa using hname)]
        simp only [List.map_cons, List.sum_cons, Option.map_some, Option.getD_some]
        omega
      · have hin : name ∈ rest.map Prod.fst := by
          rcases List.mem_cons.mp hmem with heq | hin
          · exact absurd heq.symm hname
          · exact hin
        have hsum := ih hnodup.2 hin
        rw [List.map_cons, if_neg hname, List.find?_cons_of_neg (by simpa using hname)]
        simp only [List.map_cons, List.sum_cons] at hsum ⊢
        omega

theorem sum_set (f : α → Nat) (m : OrderedMap JsString α) (name : JsString) (a : α) :
    ((m.set name a).entries.map fun e => f e.2).sum + ((m.get name).map f).getD 0 =
      (m.entries.map fun e => f e.2).sum + f a := by
  by_cases hold : name ∈ m.keys
  · have hset : (m.set name a).entries =
        m.entries.map fun e => if e.1 = name then (name, a) else e := by
      change OrderedMap.setEntries m.entries name a = _
      rw [OrderedMap.setEntries]
      exact if_pos hold
    rw [hset]
    exact sum_replace f name a m.nodup hold
  · rw [OrderedMap.entries_set_of_notMem hold, OrderedMap.get_eq_none_iff.mpr hold]
    simp

/-- Each sum of the machine is that of the projects, on each platform. -/
def Balanced (record : StatsRecord) : Prop :=
  ∀ platform, ∀ sum : StatsSum, sum.ofBucket (record.machine.get platform) =
    (record.projects.entries.map fun e => sum.ofBucket (e.2.get platform)).sum

/-- The buckets of a record. -/
def Bucket (record : StatsRecord) (bucket : StatsBucket) : Prop :=
  (∃ platform, record.machine.get platform = some bucket) ∨
    ∃ e ∈ record.projects.entries, ∃ platform, e.2.get platform = some bucket

@[simp] theorem get_set_self (m : ByPlatform α) (platform : StatsPlatform) (a : α) :
    (m.set platform a).get platform = some a := by
  cases platform <;> rfl

theorem get_set_of_ne (m : ByPlatform α) {platform other : StatsPlatform} (a : α)
    (h : other ≠ platform) : (m.set platform a).get other = m.get other := by
  cases platform <;> cases other <;> first | rfl | exact absurd rfl h

theorem get_empty (platform : StatsPlatform) :
    (ByPlatform.empty : ByPlatform α).get platform = none := by
  cases platform <;> rfl

/-- The machine's bucket and the project's are given the same run. -/
theorem balanced_updateStats (otherForms : JsString → Option Int) {record : StatsRecord}
    (h : Balanced record) (run : StatsRun) (now : Nat) (hkey : run.projectKey ≠ PROTO) :
    Balanced (updateStats otherForms record run now) := by
  intro platform sum
  have hbefore := h platform sum
  generalize hscope : (record.projects.get run.projectKey).getD .empty = scope
  have hget : ((record.projects.get run.projectKey).map
      fun scope => sum.ofBucket (scope.get platform)).getD 0 =
      sum.ofBucket (scope.get platform) := by
    rw [← hscope]
    cases record.projects.get run.projectKey with
    | none =>
        rw [Option.map_none, Option.getD_none, Option.getD_none, get_empty]
        rfl
    | some scope => rfl
  simp only [updateStats, assign, if_neg hkey, hscope]
  generalize creditMs (scope.get run.platform) run ((runMs run).durationMs - (runMs run).cleanupMs) =
    credit
  have hsum := sum_set (fun scope => sum.ofBucket (scope.get platform)) record.projects
    run.projectKey (scope.set run.platform (applyRun (scope.get run.platform) run
      (IsoDate.toISOString now) credit))
  rw [hget] at hsum
  by_cases hplatform : platform = run.platform
  · subst hplatform
    have hmachine := ofBucket_applyRun sum (record.machine.get run.platform) run
      (IsoDate.toISOString now) credit
    have hproject := ofBucket_applyRun sum (scope.get run.platform) run
      (IsoDate.toISOString now) credit
    rw [get_set_self] at hsum ⊢
    simp only [StatsSum.ofBucket, Option.map_some, Option.getD_some] at hsum hbefore hmachine hproject ⊢
    omega
  · rw [get_set_of_ne _ _ hplatform] at hsum ⊢
    omega

end Stim.RunStats
