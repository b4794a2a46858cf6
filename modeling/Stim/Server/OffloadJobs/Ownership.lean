import Stim.Server.OffloadJobs

/-!
# Who a job belongs to

In every state that the server reaches, a job's socket is exactly the connection that is spliced
to it, what passes between a job and a connection passes within one client, and a running job is
attached, or has its grace timer armed, or has had its stdin ended.
-/

namespace Stim.Server.OffloadJobs

/-- The client of a connection. -/
def client (s : OffloadJobs) (conn : ConnId) : Option String :=
  (s.connections conn).device.map JobClient.id

/-- A job was started by a connection of a client. -/
def StartedBy (s : OffloadJobs) (id : JobId) (client : String) : Prop :=
  ∃ starter, (id, starter) ∈ s.started ∧ s.client starter = some client

/-- A frame passed between a job and a connection of the client that started it. -/
def SameClient (s : OffloadJobs) (passed : Passed) : Prop :=
  ∃ client, s.StartedBy passed.job client ∧ s.client passed.conn = some client

/-- A job is attached to a connection whose close is not reported, or its grace timer is armed,
or its stdin was ended. -/
def Attended (s : OffloadJobs) (id : JobId) (job : Job) : Prop :=
  (∃ conn, job.socket = some conn ∧ (s.connections conn).ready ≠ .closed) ∨
    (∃ timer, job.grace = some timer ∧ s.timers timer = some id) ∨ job.stdin.ended = true

/-- Jobs stay with their clients and are not leaked. -/
structure Owned (s : OffloadJobs) : Prop where
  /-- A job's socket is exactly the connection spliced to it. -/
  socket : ∀ id job, s.jobs id = some job →
    ∀ conn, job.socket = some conn ↔ s.spliced conn = some id
  /-- A connection is spliced to running jobs only. -/
  spliced : ∀ conn id, s.spliced conn = some id → ∃ job, s.jobs id = some job
  /-- A connection belongs to at most one job. -/
  one : ∀ conn id id' job job', s.jobs id = some job → s.jobs id' = some job' →
    job.socket = some conn → job'.socket = some conn → id = id'
  startedOnce : (s.started.map Prod.fst).Nodup
  written : ∀ passed ∈ s.written, s.SameClient passed
  sent : ∀ passed ∈ s.sent, s.SameClient passed
  attended : ∀ id job, s.jobs id = some job → s.Attended id job

/-! ## The invariant -/

/-- How jobs, connections and timers point at each other. -/
structure Linked (s : OffloadJobs) : Prop where
  socket : ∀ {id job conn}, s.jobs id = some job →
    (job.socket = some conn ↔ s.spliced conn = some id)
  spliced : ∀ {conn id}, s.spliced conn = some id → ∃ job, s.jobs id = some job
  ready : ∀ {conn id}, s.spliced conn = some id → (s.connections conn).ready ≠ .closed
  owner : ∀ {id job}, s.jobs id = some job → s.StartedBy id job.client
  client : ∀ {conn id job}, s.spliced conn = some id → s.jobs id = some job →
    s.client conn = some job.client
  timer : ∀ {timer id}, s.timers timer = some id →
    ∃ job, s.jobs id = some job ∧ job.grace = some timer
  attached : ∀ {id job}, s.jobs id = some job → job.socket.isSome → job.grace = none
  grace : ∀ {id id' job job' timer}, s.jobs id = some job → s.jobs id' = some job' →
    job.grace = some timer → job'.grace = some timer → id = id'
  nextTimer : ∀ {id job timer}, s.jobs id = some job → job.grace = some timer →
    timer < s.nextTimer
  nextJob : ∀ {id job}, s.jobs id = some job → id < s.nextJob
  /-- A connection that waits for an install has no job. -/
  waiting : ∀ {conn waiting}, (s.connections conn).waiting = some waiting →
    s.spliced conn = none ∧ (s.connections conn).device = some waiting.client

/-- What has passed, passed within one client. -/
structure Logged (s : OffloadJobs) : Prop where
  nextJob : ∀ {id starter}, (id, starter) ∈ s.started → id < s.nextJob
  startedOnce : (s.started.map Prod.fst).Nodup
  written : ∀ passed ∈ s.written, s.SameClient passed
  sent : ∀ passed ∈ s.sent, s.SameClient passed

/-- Every job but one is attended. -/
def AttendedBut (s : OffloadJobs) (but : Option JobId) : Prop :=
  ∀ id job, s.jobs id = some job → some id ≠ but → job.socket.isSome ∨
    (∃ timer, job.grace = some timer ∧ s.timers timer = some id) ∨ job.stdin.ended = true

/-- The invariant, for the jobs but one. -/
structure WellFormed (s : OffloadJobs) (but : Option JobId) : Prop where
  linked : s.Linked
  logged : s.Logged
  attended : s.AttendedBut but

variable {s t : OffloadJobs} {conn : ConnId} {id : JobId} {job : Job} {but : Option JobId}

theorem wellFormed_init : WellFormed init none := by
  refine ⟨?_, ?_, ?_⟩
  · constructor <;> simp [init]
  · constructor <;> simp [init]
  · simp [AttendedBut, init]

theorem WellFormed.owned (h : s.WellFormed none) : s.Owned where
  socket _ _ hjob _ := h.linked.socket hjob
  spliced _ _ := h.linked.spliced
  one conn id id' job job' hjob hjob' hsocket hsocket' := by
    have hspliced := (h.linked.socket hjob).mp hsocket
    rw [(h.linked.socket hjob').mp hsocket'] at hspliced
    exact (Option.some.inj hspliced).symm
  startedOnce := h.logged.startedOnce
  written := h.logged.written
  sent := h.logged.sent
  attended id job hjob := by
    rcases h.attended id job hjob nofun with hsocket | hrest
    · obtain ⟨conn, hconn⟩ := Option.isSome_iff_exists.mp hsocket
      exact .inl ⟨conn, hconn, h.linked.ready ((h.linked.socket hjob).mp hconn)⟩
    · exact .inr hrest

/-! ## Turns that move no job -/

/-- A job keeps all but its stdin, which stays ended. -/
def KeepsJob : Option Job → Option Job → Prop
  | none, none => True
  | some job, some job' => job'.client = job.client ∧ job'.socket = job.socket ∧
      job'.grace = job.grace ∧ (job.stdin.ended = true → job'.stdin.ended = true)
  | _, _ => False

/-- No job moves to another connection, and no connection to another client. -/
structure Quiet (s t : OffloadJobs) : Prop where
  jobs : ∀ id, KeepsJob (s.jobs id) (t.jobs id)
  spliced : t.spliced = s.spliced
  timers : t.timers = s.timers
  nextTimer : t.nextTimer = s.nextTimer
  nextJob : t.nextJob = s.nextJob
  started : t.started = s.started
  written : t.written = s.written
  sent : t.sent = s.sent
  device : ∀ conn device, (s.connections conn).device = some device →
    (t.connections conn).device = some device
  ready : ∀ conn, (t.connections conn).ready = .closed → (s.connections conn).ready = .closed
  waiting : ∀ conn waiting, (t.connections conn).waiting = some waiting →
    s.spliced conn = none ∧ (t.connections conn).device = some waiting.client ∨
      ∃ before, (s.connections conn).waiting = some before ∧ before.client = waiting.client

theorem keepsJob_refl (job : Option Job) : KeepsJob job job := by
  cases job <;> simp [KeepsJob]

theorem KeepsJob.some_right {before : Option Job} (h : KeepsJob before (some job)) :
    ∃ old, before = some old ∧ job.client = old.client ∧ job.socket = old.socket ∧
      job.grace = old.grace ∧ (old.stdin.ended = true → job.stdin.ended = true) := by
  cases before with
  | none => exact h.elim
  | some old => exact ⟨old, rfl, h⟩

theorem KeepsJob.some_left {after : Option Job} (h : KeepsJob (some job) after) :
    ∃ new, after = some new ∧ new.client = job.client ∧ new.socket = job.socket ∧
      new.grace = job.grace := by
  cases after with
  | none => exact h.elim
  | some new => exact ⟨new, rfl, h.1, h.2.1, h.2.2.1⟩

theorem Quiet.client (h : Quiet s t) {conn : ConnId} {name : String}
    (hclient : s.client conn = some name) : t.client conn = some name := by
  obtain ⟨device, hdevice, rfl⟩ := Option.map_eq_some_iff.mp hclient
  exact Option.map_eq_some_iff.mpr ⟨device, h.device conn device hdevice, rfl⟩

theorem Quiet.startedBy (h : Quiet s t) {name : String} (hstarted : s.StartedBy id name) :
    t.StartedBy id name := by
  obtain ⟨starter, hmem, hclient⟩ := hstarted
  exact ⟨starter, h.started ▸ hmem, h.client hclient⟩

theorem Quiet.sameClient (h : Quiet s t) {passed : Passed} (hsame : s.SameClient passed) :
    t.SameClient passed := by
  obtain ⟨name, hstarted, hclient⟩ := hsame
  exact ⟨name, h.startedBy hstarted, h.client hclient⟩

/-- A connection with a job waits for no install. -/
theorem Linked.idle (h : s.Linked) (hspliced : s.spliced conn = some id) :
    (s.connections conn).waiting = none := by
  cases hwaiting : (s.connections conn).waiting with
  | none => rfl
  | some waiting =>
      rw [(h.waiting hwaiting).1] at hspliced
      cases hspliced

theorem Quiet.linked (hq : Quiet s t) (h : s.Linked) : t.Linked where
  socket {id job conn} hjob := by
    obtain ⟨old, hold, -, hsocket, -⟩ := (hjob ▸ hq.jobs id).some_right
    rw [hq.spliced, hsocket]
    exact h.socket hold
  spliced {conn id} hspliced := by
    rw [hq.spliced] at hspliced
    obtain ⟨job, hjob⟩ := h.spliced hspliced
    obtain ⟨new, hnew, -⟩ := (hjob ▸ hq.jobs id).some_left
    exact ⟨new, hnew⟩
  ready {conn id} hspliced hclosed := by
    rw [hq.spliced] at hspliced
    exact h.ready hspliced (hq.ready conn hclosed)
  owner {id job} hjob := by
    obtain ⟨old, hold, hclient, -⟩ := (hjob ▸ hq.jobs id).some_right
    rw [hclient]
    exact hq.startedBy (h.owner hold)
  client {conn id job} hspliced hjob := by
    obtain ⟨old, hold, hclient, -⟩ := (hjob ▸ hq.jobs id).some_right
    rw [hq.spliced] at hspliced
    rw [hclient]
    exact hq.client (h.client hspliced hold)
  timer {timer id} htimer := by
    rw [hq.timers] at htimer
    obtain ⟨job, hjob, hgrace⟩ := h.timer htimer
    obtain ⟨new, hnew, -, -, hkept⟩ := (hjob ▸ hq.jobs id).some_left
    exact ⟨new, hnew, hkept.trans hgrace⟩
  attached {id job} hjob hattached := by
    obtain ⟨old, hold, -, hsocket, hgrace, -⟩ := (hjob ▸ hq.jobs id).some_right
    rw [hgrace]
    exact h.attached hold (hsocket ▸ hattached)
  grace {id id' job job' timer} hjob hjob' hgrace hgrace' := by
    obtain ⟨old, hold, -, -, hkept, -⟩ := (hjob ▸ hq.jobs id).some_right
    obtain ⟨old', hold', -, -, hkept', -⟩ := (hjob' ▸ hq.jobs id').some_right
    exact h.grace hold hold' (hkept ▸ hgrace) (hkept' ▸ hgrace')
  nextTimer {id job timer} hjob hgrace := by
    obtain ⟨old, hold, -, -, hkept, -⟩ := (hjob ▸ hq.jobs id).some_right
    rw [hq.nextTimer]
    exact h.nextTimer hold (hkept ▸ hgrace)
  nextJob {id job} hjob := by
    obtain ⟨old, hold, -⟩ := (hjob ▸ hq.jobs id).some_right
    rw [hq.nextJob]
    exact h.nextJob hold
  waiting {conn waiting} hwaiting := by
    rw [hq.spliced]
    rcases hq.waiting conn waiting hwaiting with hdevice | ⟨before, hbefore, hsame⟩
    · exact hdevice
    · rw [← hsame]
      exact ⟨(h.waiting hbefore).1, hq.device conn _ (h.waiting hbefore).2⟩

theorem Quiet.wellFormed (hq : Quiet s t) (h : s.WellFormed but) : t.WellFormed but where
  linked := hq.linked h.linked
  logged := by
    refine ⟨?_, ?_, ?_, ?_⟩
    · rw [hq.started, hq.nextJob]
      exact h.logged.nextJob
    · rw [hq.started]
      exact h.logged.startedOnce
    · rw [hq.written]
      exact fun passed hmem => hq.sameClient (h.logged.written passed hmem)
    · rw [hq.sent]
      exact fun passed hmem => hq.sameClient (h.logged.sent passed hmem)
  attended id job hjob hbut := by
    obtain ⟨old, hold, -, hsocket, hgrace, hended⟩ := (hjob ▸ hq.jobs id).some_right
    rw [hsocket, hgrace, hq.timers]
    rcases h.attended id old hold hbut with hattached | harmed | hend
    · exact .inl hattached
    · exact .inr (.inl harmed)
    · exact .inr (.inr (hended hend))

theorem quiet_of_eq (hjobs : t.jobs = s.jobs) (hspliced : t.spliced = s.spliced)
    (htimers : t.timers = s.timers) (hnextTimer : t.nextTimer = s.nextTimer)
    (hnextJob : t.nextJob = s.nextJob) (hstarted : t.started = s.started)
    (hwritten : t.written = s.written) (hsent : t.sent = s.sent)
    (hconnections : t.connections = s.connections) : Quiet s t where
  jobs _ := hjobs ▸ keepsJob_refl _
  spliced := hspliced
  timers := htimers
  nextTimer := hnextTimer
  nextJob := hnextJob
  started := hstarted
  written := hwritten
  sent := hsent
  device _ _ h := hconnections ▸ h
  ready _ h := hconnections ▸ h
  waiting _ waiting h := .inr ⟨waiting, hconnections ▸ h, rfl⟩

theorem quiet_uploads (s : OffloadJobs) (uploads : ConnId → Option Upload) :
    Quiet s { s with uploads := uploads } :=
  quiet_of_eq rfl rfl rfl rfl rfl rfl rfl rfl rfl

theorem quiet_setConnection {connection : Connection}
    (hdevice : ∀ device, (s.connections conn).device = some device →
      connection.device = some device)
    (hready : connection.ready = .closed → (s.connections conn).ready = .closed)
    (hwaiting : ∀ waiting, connection.waiting = some waiting →
      s.spliced conn = none ∧ connection.device = some waiting.client ∨
        ∃ before, (s.connections conn).waiting = some before ∧ before.client = waiting.client) :
    Quiet s (s.setConnection conn connection) := by
  refine ⟨fun id => keepsJob_refl _, rfl, rfl, rfl, rfl, rfl, rfl, rfl, ?_, ?_, ?_⟩
  all_goals
    intro conn'
    by_cases hconn : conn' = conn
  · subst hconn
    simpa [setConnection] using hdevice
  · simp [setConnection, hconn]
  · subst hconn
    simpa [setConnection] using hready
  · simp [setConnection, hconn]
  · subst hconn
    simpa [setConnection] using hwaiting
  · intro waiting hkept
    exact .inr ⟨waiting, by simpa [setConnection, hconn] using hkept, rfl⟩

theorem quiet_queue (s : OffloadJobs) (conn : ConnId) (queue : List Frame) :
    Quiet s (s.setConnection conn { s.connections conn with queue := queue }) :=
  quiet_setConnection (fun _ h => h) (fun h => h) fun waiting h => .inr ⟨waiting, h, rfl⟩

theorem quiet_hello (hnew : (s.connections conn).device = none) (device : JobClient) :
    Quiet s (s.setConnection conn { s.connections conn with device := some device }) := by
  refine quiet_setConnection ?_ (fun h => h) fun waiting h => .inr ⟨waiting, h, rfl⟩
  intro old hold
  rw [hnew] at hold
  cases hold

/-- A connection without a job may wait, and go on. -/
theorem quiet_waiting {waiting : Option Waiting} (hwaiting : ∀ next, waiting = some next →
      s.spliced conn = none ∧ (s.connections conn).device = some next.client) :
    Quiet s (s.setConnection conn { s.connections conn with waiting := waiting }) :=
  quiet_setConnection (fun _ h => h) (fun h => h) fun next h => .inl (hwaiting next h)

theorem quiet_resume (s : OffloadJobs) (conn : ConnId) :
    Quiet s (s.setConnection conn { s.connections conn with waiting := none }) :=
  quiet_waiting fun next hnext => by cases hnext

theorem quiet_fetched (s : OffloadJobs) (build : String) (failure : Option InstallFailure)
    (now : Nat) :
    Quiet s { s with
      fetches := Function.update s.fetches build false
      failed := Function.update s.failed build (failure.map fun failed => (failed, now))
      connections := fun conn => (s.connections conn).fetched build failure } := by
  refine ⟨fun id => keepsJob_refl _, rfl, rfl, rfl, rfl, rfl, rfl, rfl, fun _ _ h => h,
    fun _ h => h, ?_⟩
  intro conn waiting hwaiting
  obtain ⟨before, hbefore, rfl⟩ := Option.map_eq_some_iff.mp hwaiting
  refine .inr ⟨before, hbefore, ?_⟩
  split_ifs <;> rfl

theorem quiet_breakStdin (hjob : s.jobs id = some job) :
    Quiet s (s.setJob id
      (some { job with stdin := { job.stdin with destroyed := true } })) := by
  refine ⟨?_, rfl, rfl, rfl, rfl, rfl, rfl, rfl, fun _ _ h => h, fun _ h => h,
    fun _ waiting h => .inr ⟨waiting, h, rfl⟩⟩
  intro id'
  by_cases hid : id' = id
  · subst hid
    simp [setJob, hjob, KeepsJob]
  · simpa [setJob, hid] using keepsJob_refl _

/-! ## Turns that move one job -/

/-- One job may change its connection, its timer and its stdin, or end. -/
structure Moves (s t : OffloadJobs) (id : JobId) : Prop where
  connections : t.connections = s.connections
  nextTimer : s.nextTimer ≤ t.nextTimer
  nextJob : t.nextJob = s.nextJob
  started : t.started = s.started
  written : t.written = s.written
  sent : t.sent = s.sent
  /-- The other jobs stay as they are. -/
  jobs : ∀ id', id' ≠ id → t.jobs id' = s.jobs id'
  spliced : ∀ id' conn, id' ≠ id → (t.spliced conn = some id' ↔ s.spliced conn = some id')
  timers : ∀ id' timer, id' ≠ id → (t.timers timer = some id' ↔ s.timers timer = some id')
  client : ∀ job, t.jobs id = some job → ∃ old, s.jobs id = some old ∧ job.client = old.client
  socket : ∀ job, t.jobs id = some job →
    ∀ conn, job.socket = some conn ↔ t.spliced conn = some id
  attached : ∀ conn, t.spliced conn = some id → ∃ job, t.jobs id = some job ∧
    job.grace = none ∧ (s.connections conn).ready ≠ .closed ∧ s.client conn = some job.client ∧
      (s.connections conn).waiting = none
  armed : ∀ timer, t.timers timer = some id → ∃ job, t.jobs id = some job ∧
    job.grace = some timer
  grace : ∀ job timer, t.jobs id = some job → job.grace = some timer → timer < t.nextTimer ∧
    ∀ id' job', id' ≠ id → s.jobs id' = some job' → job'.grace ≠ some timer

theorem Moves.client_eq (hm : Moves s t id) (conn : ConnId) : t.client conn = s.client conn := by
  rw [OffloadJobs.client, OffloadJobs.client, hm.connections]

theorem Moves.startedBy (hm : Moves s t id) {id' : JobId} {name : String} :
    t.StartedBy id' name ↔ s.StartedBy id' name := by
  simp [StartedBy, hm.started, hm.client_eq]

theorem Moves.sameClient (hm : Moves s t id) {passed : Passed} :
    t.SameClient passed ↔ s.SameClient passed := by
  simp [SameClient, hm.startedBy, hm.client_eq]

theorem Moves.linked (hm : Moves s t id) (h : s.Linked) : t.Linked where
  socket {id' job conn} hjob := by
    by_cases hid : id' = id
    · subst hid
      exact hm.socket job hjob conn
    · rw [hm.jobs id' hid] at hjob
      rw [hm.spliced id' conn hid]
      exact h.socket hjob
  spliced {conn id'} hspliced := by
    by_cases hid : id' = id
    · subst hid
      obtain ⟨job, hjob, -⟩ := hm.attached conn hspliced
      exact ⟨job, hjob⟩
    · rw [hm.jobs id' hid]
      exact h.spliced ((hm.spliced id' conn hid).mp hspliced)
  ready {conn id'} hspliced := by
    rw [hm.connections]
    by_cases hid : id' = id
    · subst hid
      obtain ⟨job, -, -, hready, -, -⟩ := hm.attached conn hspliced
      exact hready
    · exact h.ready ((hm.spliced id' conn hid).mp hspliced)
  owner {id' job} hjob := by
    rw [hm.startedBy]
    by_cases hid : id' = id
    · subst hid
      obtain ⟨old, hold, hclient⟩ := hm.client job hjob
      rw [hclient]
      exact h.owner hold
    · rw [hm.jobs id' hid] at hjob
      exact h.owner hjob
  client {conn id' job} hspliced hjob := by
    rw [hm.client_eq]
    by_cases hid : id' = id
    · subst hid
      obtain ⟨job', hjob', -, -, hclient, -⟩ := hm.attached conn hspliced
      rw [hjob] at hjob'
      cases hjob'
      exact hclient
    · rw [hm.jobs id' hid] at hjob
      exact h.client ((hm.spliced id' conn hid).mp hspliced) hjob
  timer {timer id'} htimer := by
    by_cases hid : id' = id
    · subst hid
      exact hm.armed timer htimer
    · rw [hm.jobs id' hid]
      exact h.timer ((hm.timers id' timer hid).mp htimer)
  attached {id' job} hjob hattached := by
    by_cases hid : id' = id
    · subst hid
      obtain ⟨conn, hconn⟩ := Option.isSome_iff_exists.mp hattached
      obtain ⟨job', hjob', hgrace, -⟩ := hm.attached conn ((hm.socket job hjob conn).mp hconn)
      rw [hjob] at hjob'
      cases hjob'
      exact hgrace
    · rw [hm.jobs id' hid] at hjob
      exact h.attached hjob hattached
  grace {id₁ id₂ job₁ job₂ timer} hjob₁ hjob₂ hgrace₁ hgrace₂ := by
    by_cases h₁ : id₁ = id <;> by_cases h₂ : id₂ = id
    · exact h₁.trans h₂.symm
    · subst h₁
      rw [hm.jobs id₂ h₂] at hjob₂
      exact absurd hgrace₂ ((hm.grace job₁ timer hjob₁ hgrace₁).2 id₂ job₂ h₂ hjob₂)
    · subst h₂
      rw [hm.jobs id₁ h₁] at hjob₁
      exact absurd hgrace₁ ((hm.grace job₂ timer hjob₂ hgrace₂).2 id₁ job₁ h₁ hjob₁)
    · rw [hm.jobs id₁ h₁] at hjob₁
      rw [hm.jobs id₂ h₂] at hjob₂
      exact h.grace hjob₁ hjob₂ hgrace₁ hgrace₂
  nextTimer {id' job timer} hjob hgrace := by
    by_cases hid : id' = id
    · subst hid
      exact (hm.grace job timer hjob hgrace).1
    · rw [hm.jobs id' hid] at hjob
      exact Nat.lt_of_lt_of_le (h.nextTimer hjob hgrace) hm.nextTimer
  nextJob {id' job} hjob := by
    rw [hm.nextJob]
    by_cases hid : id' = id
    · subst hid
      obtain ⟨old, hold, -⟩ := hm.client job hjob
      exact h.nextJob hold
    · rw [hm.jobs id' hid] at hjob
      exact h.nextJob hjob
  waiting {conn waiting} hwaiting := by
    rw [hm.connections] at hwaiting ⊢
    obtain ⟨hfree, hdevice⟩ := h.waiting hwaiting
    refine ⟨Option.eq_none_iff_forall_ne_some.mpr ?_, hdevice⟩
    intro id' hspliced
    by_cases hid : id' = id
    · subst hid
      obtain ⟨job, -, -, -, -, hidle⟩ := hm.attached conn hspliced
      rw [hidle] at hwaiting
      cases hwaiting
    · rw [(hm.spliced id' conn hid).mp hspliced] at hfree
      cases hfree

/-- The turn that moves a job leaves it attended. -/
theorem Moves.wellFormed (hm : Moves s t id) (h : s.WellFormed but)
    (hbut : but = none ∨ but = some id)
    (hattended : ∀ job, t.jobs id = some job → job.socket.isSome ∨
      (∃ timer, job.grace = some timer ∧ t.timers timer = some id) ∨ job.stdin.ended = true) :
    t.WellFormed none where
  linked := hm.linked h.linked
  logged := by
    refine ⟨?_, ?_, ?_, ?_⟩
    · rw [hm.started, hm.nextJob]
      exact h.logged.nextJob
    · rw [hm.started]
      exact h.logged.startedOnce
    · rw [hm.written]
      exact fun passed hmem => hm.sameClient.mpr (h.logged.written passed hmem)
    · rw [hm.sent]
      exact fun passed hmem => hm.sameClient.mpr (h.logged.sent passed hmem)
  attended id' job hjob _ := by
    by_cases hid : id' = id
    · subst hid
      exact hattended job hjob
    · rw [hm.jobs id' hid] at hjob
      have hne : some id' ≠ but := by
        rcases hbut with rfl | rfl
        · exact nofun
        · exact fun heq => hid (Option.some.inj heq)
      rcases h.attended id' job hjob hne with hsocket | ⟨timer, hgrace, harmed⟩ | hended
      · exact .inl hsocket
      · exact .inr (.inl ⟨timer, hgrace, (hm.timers id' timer hid).mpr harmed⟩)
      · exact .inr (.inr hended)

theorem jobs_setJob (id' : JobId) (next : Option Job) :
    (s.setJob id next).jobs id' = if id' = id then next else s.jobs id' := by
  simp [setJob, Function.update_apply]

theorem spliced_splice (conn' : ConnId) (next : Option JobId) :
    (s.splice conn next).spliced conn' = if conn' = conn then next else s.spliced conn' := by
  simp [splice, Function.update_apply]

theorem timers_clearTimeout (timer : Option TimerId) (timer' : TimerId) :
    (s.clearTimeout timer).timers timer' =
      if some timer' = timer then none else s.timers timer' := by
  cases timer with
  | none => simp [clearTimeout]
  | some timer => simp [clearTimeout, Function.update_apply]

/-- No other job has the timer of a job. -/
theorem timers_of_grace (h : s.Linked) (hjob : s.jobs id = some job) {timer : TimerId}
    (hgrace : job.grace = some timer) {id' : JobId} (harmed : s.timers timer = some id') :
    id' = id := by
  obtain ⟨job', hjob', hgrace'⟩ := h.timer harmed
  exact h.grace hjob' hjob hgrace' hgrace

/-- A job is armed with its own timer only. -/
theorem grace_of_timers (h : s.Linked) (hjob : s.jobs id = some job) {timer : TimerId}
    (harmed : s.timers timer = some id) : job.grace = some timer := by
  obtain ⟨job', hjob', hgrace⟩ := h.timer harmed
  rw [hjob] at hjob'
  cases hjob'
  exact hgrace

/-- The state without the connection of a job. -/
def unsplice (s : OffloadJobs) (socket : Option ConnId) : OffloadJobs :=
  match socket with
  | none => s
  | some old => s.splice old none

theorem spliced_unsplice (socket : Option ConnId) (conn' : ConnId) :
    (s.unsplice socket).spliced conn' =
      if some conn' = socket then none else s.spliced conn' := by
  cases socket with
  | none => simp [unsplice]
  | some old => simp [unsplice, spliced_splice]

theorem moves_attachSocket (h : s.Linked) (hjob : s.jobs id = some job)
    (hfree : s.spliced conn = none) (hready : (s.connections conn).ready ≠ .closed)
    (hclient : s.client conn = some job.client) (hidle : (s.connections conn).waiting = none) :
    Moves s ((s.unsplice job.socket).attachSocket id job conn) id := by
  have hframe : ∀ socket timer, ((s.unsplice socket).clearTimeout timer).connections =
      s.connections ∧ ((s.unsplice socket).clearTimeout timer).nextTimer = s.nextTimer ∧
      ((s.unsplice socket).clearTimeout timer).nextJob = s.nextJob ∧
      ((s.unsplice socket).clearTimeout timer).started = s.started ∧
      ((s.unsplice socket).clearTimeout timer).written = s.written ∧
      ((s.unsplice socket).clearTimeout timer).sent = s.sent ∧
      ((s.unsplice socket).clearTimeout timer).jobs = s.jobs ∧
      ((s.unsplice socket).clearTimeout timer).spliced = (s.unsplice socket).spliced := by
    intro socket timer
    cases socket <;> cases timer <;> exact ⟨rfl, rfl, rfl, rfl, rfl, rfl, rfl, rfl⟩
  obtain ⟨hconnections, hnextTimer, hnextJob, hstarted, hwritten, hsent, hjobs, hspliced⟩ :=
    hframe job.socket job.grace
  have hjobs : ∀ id', ((s.unsplice job.socket).attachSocket id job conn).jobs id' =
      if id' = id then some { job with grace := none, socket := some conn } else s.jobs id' := by
    intro id'
    show (((s.unsplice job.socket).clearTimeout job.grace).setJob id _).jobs id' = _
    rw [jobs_setJob, hjobs]
  have hspliced : ∀ conn', ((s.unsplice job.socket).attachSocket id job conn).spliced conn' =
      if conn' = conn then some id
      else if some conn' = job.socket then none else s.spliced conn' := by
    intro conn'
    rw [attachSocket, spliced_splice]
    show (if conn' = conn then some id
      else ((s.unsplice job.socket).clearTimeout job.grace).spliced conn') = _
    rw [hspliced, spliced_unsplice]
  have htimers : ∀ timer, ((s.unsplice job.socket).attachSocket id job conn).timers timer =
      if some timer = job.grace then none else s.timers timer := by
    intro timer
    show ((s.unsplice job.socket).clearTimeout job.grace).timers timer = _
    rw [timers_clearTimeout]
    cases job.socket <;> rfl
  have hsocket := fun conn => @Linked.socket s h id job conn hjob
  refine ⟨hconnections, Nat.le_of_eq hnextTimer.symm, hnextJob, hstarted, hwritten, hsent, ?_, ?_, ?_, ?_, ?_,
    ?_, ?_, ?_⟩
  · intro id' hid
    rw [hjobs, if_neg hid]
  · intro id' conn' hid
    have := hsocket conn'
    grind
  · intro id' timer hid
    have := @timers_of_grace s id job h hjob timer
    grind
  · intro job' hjob'
    grind
  · intro job' hjob' conn'
    have := hsocket conn'
    grind
  · intro conn' hs
    have := hsocket conn'
    grind
  · intro timer harmed
    have := @grace_of_timers s id job h hjob timer
    grind
  · intro job' timer hjob' hgrace
    grind

/-- The job of a connection that has closed. -/
def leftBy (s : OffloadJobs) (job : Job) (code : Nat) : Job :=
  if code ≠ closeAbnormal || s.closed then { job.endStdin with socket := none }
  else { job with socket := none, grace := some s.nextTimer }

/-- Whether the job of a connection that has closed is kept. -/
def keeps (s : OffloadJobs) (code : Nat) : Bool := code = closeAbnormal && !s.closed

/-- A closed connection without a job touches no job. -/
theorem disconnected_of_none (hspliced : s.spliced conn = none) (code : Nat) :
    s.disconnected conn code =
      { s with uploads := Function.update s.uploads conn none } := by
  simp [disconnected, hspliced]

theorem disconnected_fields (hspliced : s.spliced conn = some id) (hjob : s.jobs id = some job)
    (code : Nat) :
    (∀ id', (s.disconnected conn code).jobs id' =
      if id' = id then some (s.leftBy job code) else s.jobs id') ∧
    (∀ conn', (s.disconnected conn code).spliced conn' =
      if conn' = conn then none else s.spliced conn') ∧
    (∀ timer, (s.disconnected conn code).timers timer =
      if s.keeps code ∧ timer = s.nextTimer then some id else s.timers timer) ∧
    (s.disconnected conn code).nextTimer = (if s.keeps code then s.nextTimer + 1 else s.nextTimer) ∧
    (s.disconnected conn code).connections = s.connections ∧
    (s.disconnected conn code).nextJob = s.nextJob ∧
    (s.disconnected conn code).started = s.started ∧
    (s.disconnected conn code).written = s.written ∧
    (s.disconnected conn code).sent = s.sent := by
  have hjob' : ∀ uploads, (OffloadJobs.splice { s with uploads := uploads } conn none).jobs id =
      some job := fun _ => hjob
  have hends : (decide (code ≠ closeAbnormal) || s.closed) = !s.keeps code := by
    simp [keeps]
  unfold disconnected leftBy
  simp only [hspliced, hjob']
  show _ ∧ _
  simp only [splice, hends]
  cases s.keeps code with
  | false =>
      refine ⟨fun id' => jobs_setJob id' _, fun conn' => spliced_splice conn' _, ?_⟩
      simp [setJob]
  | true =>
      refine ⟨fun id' => jobs_setJob id' _, fun conn' => spliced_splice conn' _, ?_⟩
      simp [setJob, Function.update_apply]

theorem wellFormed_disconnected (h : s.WellFormed none) (hjob : s.jobs id = some job)
    (hspliced : s.spliced conn = some id) (code : Nat) :
    (s.disconnected conn code).WellFormed none := by
  obtain ⟨hjobs, hs, htimers, hnextTimer, hconnections, hnextJob, hstarted, hwritten, hsent⟩ :=
    disconnected_fields hspliced hjob code
  have hsocket := fun conn => @Linked.socket s h.linked id job conn hjob
  have hown := (hsocket conn).mpr hspliced
  have hgrace : job.grace = none := h.linked.attached hjob (by rw [hown]; rfl)
  have hleft : (s.leftBy job code).client = job.client ∧ (s.leftBy job code).socket = none ∧
      (s.keeps code = true ∧ (s.leftBy job code).grace = some s.nextTimer ∨
        s.keeps code = false ∧ (s.leftBy job code).grace = none ∧
          (s.leftBy job code).stdin.ended = true) := by
    unfold leftBy keeps
    by_cases hcode : code = closeAbnormal <;> cases s.closed <;>
      simp [hcode, hgrace, Job.endStdin]
  obtain ⟨hclient, hdetached, hrest⟩ := hleft
  have hmoves : Moves s (s.disconnected conn code) id := by
    refine ⟨hconnections, ?_, hnextJob, hstarted, hwritten, hsent, ?_, ?_, ?_, ?_, ?_, ?_, ?_, ?_⟩
    · rw [hnextTimer]
      split_ifs
      · exact Nat.le_succ _
      · exact Nat.le_refl _
    · intro id' hid
      rw [hjobs, if_neg hid]
    · intro id' conn' hid
      have := hsocket conn'
      grind
    · intro id' timer hid
      have := @Linked.timer s h.linked timer id'
      have := @Linked.nextTimer s h.linked id'
      grind
    · intro job' hjob'
      grind
    · intro job' hjob' conn'
      have := hsocket conn'
      grind
    · intro conn' hs'
      have := hsocket conn'
      grind
    · intro timer harmed
      have := @grace_of_timers s id job h.linked hjob timer
      grind
    · intro job' timer hjob' hgrace'
      have := @Linked.nextTimer s h.linked
      grind
  refine hmoves.wellFormed h (.inl rfl) ?_
  intro job' hjob'
  rw [hjobs, if_pos rfl] at hjob'
  cases hjob'
  rcases hrest with ⟨hkeeps, harmed⟩ | ⟨-, -, hended⟩
  · exact .inr (.inl ⟨s.nextTimer, harmed, by rw [htimers, if_pos ⟨hkeeps, rfl⟩]⟩)
  · exact .inr (.inr hended)

theorem moves_ended (h : s.Linked) (hjob : s.jobs id = some job) :
    Moves s (((s.clearTimeout job.grace).setJob id none).unsplice job.socket) id := by
  have hframe : ∀ socket timer,
      (((s.clearTimeout timer).setJob id none).unsplice socket).connections = s.connections ∧
      (((s.clearTimeout timer).setJob id none).unsplice socket).nextTimer = s.nextTimer ∧
      (((s.clearTimeout timer).setJob id none).unsplice socket).nextJob = s.nextJob ∧
      (((s.clearTimeout timer).setJob id none).unsplice socket).started = s.started ∧
      (((s.clearTimeout timer).setJob id none).unsplice socket).written = s.written ∧
      (((s.clearTimeout timer).setJob id none).unsplice socket).sent = s.sent ∧
      (∀ id', (((s.clearTimeout timer).setJob id none).unsplice socket).jobs id' =
        if id' = id then none else s.jobs id') ∧
      (∀ conn', (((s.clearTimeout timer).setJob id none).unsplice socket).spliced conn' =
        if some conn' = socket then none else s.spliced conn') ∧
      ∀ timer', (((s.clearTimeout timer).setJob id none).unsplice socket).timers timer' =
        if some timer' = timer then none else s.timers timer' := by
    intro socket timer
    cases socket <;> cases timer <;>
      simp [clearTimeout, setJob, unsplice, splice, Function.update_apply]
  obtain ⟨hconnections, hnextTimer, hnextJob, hstarted, hwritten, hsent, hjobs, hspliced,
    htimers⟩ := hframe job.socket job.grace
  have hsocket := fun conn => @Linked.socket s h id job conn hjob
  refine ⟨hconnections, Nat.le_of_eq hnextTimer.symm, hnextJob, hstarted, hwritten, hsent, ?_, ?_,
    ?_, ?_, ?_, ?_, ?_, ?_⟩
  · intro id' hid
    rw [hjobs, if_neg hid]
  · intro id' conn' hid
    have := hsocket conn'
    grind
  · intro id' timer hid
    have := @timers_of_grace s id job h hjob timer
    grind
  · intro job' hjob'
    grind
  · intro job' hjob' conn'
    grind
  · intro conn' hs
    have := hsocket conn'
    grind
  · intro timer harmed
    have := @grace_of_timers s id job h hjob timer
    grind
  · intro job' timer hjob'
    grind

/-- Closing a socket reports no close yet. -/
theorem quiet_closeSocket (s : OffloadJobs) (conn : ConnId) : Quiet s (s.closeSocket conn) := by
  unfold closeSocket
  split_ifs with hopen
  · exact quiet_setConnection (fun _ h => h) nofun fun waiting h => .inr ⟨waiting, h, rfl⟩
  · exact quiet_of_eq rfl rfl rfl rfl rfl rfl rfl rfl rfl

theorem wellFormed_exited (h : s.WellFormed none) (hjob : s.jobs id = some job) :
    (s.exited id job).WellFormed none := by
  have hended := (moves_ended h.linked hjob).wellFormed h (.inl rfl) (by
    intro job' hjob'
    cases hsocket : job.socket <;> simp [hsocket, unsplice, splice, jobs_setJob] at hjob')
  unfold exited
  cases hsocket : job.socket with
  | none => simpa only [hsocket, unsplice] using hended
  | some conn =>
      rw [hsocket] at hended
      exact (quiet_closeSocket _ conn).wellFormed hended

theorem wellFormed_expire {timer : TimerId} (h : s.WellFormed none)
    (harmed : s.timers timer = some id) :
    ((s.clearTimeout (some timer)).setJob id
      (((s.clearTimeout (some timer)).jobs id).map Job.endStdin)).WellFormed none := by
  obtain ⟨job, hjob, hgrace⟩ := h.linked.timer harmed
  have hjobs : ∀ id', ((s.clearTimeout (some timer)).setJob id
      (((s.clearTimeout (some timer)).jobs id).map Job.endStdin)).jobs id' =
      if id' = id then some job.endStdin else s.jobs id' := by
    intro id'
    rw [jobs_setJob]
    simp [clearTimeout, hjob]
  have htimers : ∀ timer', ((s.clearTimeout (some timer)).setJob id
      (((s.clearTimeout (some timer)).jobs id).map Job.endStdin)).timers timer' =
      if timer' = timer then none else s.timers timer' :=
    fun timer' => Function.update_apply _ _ _ _
  have hsocket := fun conn => @Linked.socket s h.linked id job conn hjob
  have hmoves : Moves s ((s.clearTimeout (some timer)).setJob id
      (((s.clearTimeout (some timer)).jobs id).map Job.endStdin)) id := by
    refine ⟨rfl, Nat.le_refl _, rfl, rfl, rfl, rfl, ?_, ?_, ?_, ?_, ?_, ?_, ?_, ?_⟩
    · intro id' hid
      rw [hjobs, if_neg hid]
    · exact fun id' conn' hid => Iff.rfl
    · intro id' timer' hid
      grind
    · intro job' hjob'
      grind [Job.endStdin]
    · intro job' hjob' conn'
      rw [hjobs, if_pos rfl] at hjob'
      cases hjob'
      exact hsocket conn'
    · intro conn' hs
      have hattached : job.socket = some conn' := (hsocket conn').mpr hs
      have hgrace : job.grace = none := h.linked.attached hjob (by rw [hattached]; rfl)
      have hclient : s.client conn' = some job.client := h.linked.client hs hjob
      exact ⟨job.endStdin, (hjobs id).trans (if_pos rfl), hgrace, h.linked.ready hs, hclient,
        h.linked.idle hs⟩
    · intro timer' harmed'
      have := @grace_of_timers s id job h.linked hjob timer'
      grind
    · intro job' timer' hjob' hgrace'
      have := @Linked.nextTimer s h.linked id job timer'
      have := @Linked.grace s h.linked id
      rw [hjobs, if_pos rfl] at hjob'
      cases hjob'
      refine ⟨h.linked.nextTimer hjob hgrace', ?_⟩
      intro id' job' hid hjob' hsame
      exact hid (h.linked.grace hjob' hjob hsame hgrace')
  refine hmoves.wellFormed h (.inl rfl) ?_
  intro job' hjob'
  rw [hjobs, if_pos rfl] at hjob'
  cases hjob'
  exact .inr (.inr rfl)

/-! ## The turns of a `job.start` -/

variable {w : Worker} {r : Reading} {device : JobClient} {params : RunParams}

theorem client_of_device (hdevice : (s.connections conn).device = some device) :
    s.client conn = some device.id := by
  rw [client, hdevice]
  rfl

/-- A new job is attended once it has its connection. -/
theorem wellFormed_spawn (h : s.WellFormed none)
    (hdevice : (s.connections conn).device = some device) :
    (s.spawn conn device params).WellFormed (some s.nextJob) := by
  have hjobs : ∀ id, (s.spawn conn device params).jobs id =
      if id = s.nextJob then some (newJob device params) else s.jobs id :=
    fun id => jobs_setJob id _
  have hnew : s.jobs s.nextJob = none := by
    cases hjob : s.jobs s.nextJob with
    | none => rfl
    | some job => exact absurd (h.linked.nextJob hjob) (Nat.lt_irrefl _)
  have hstarted : ∀ {id name}, s.StartedBy id name →
      (s.spawn conn device params).StartedBy id name := by
    rintro id name ⟨starter, hmem, hclient⟩
    exact ⟨starter, List.mem_append_left _ hmem, hclient⟩
  have hsame : ∀ {passed}, s.SameClient passed →
      (s.spawn conn device params).SameClient passed := by
    rintro passed ⟨name, hby, hclient⟩
    exact ⟨name, hstarted hby, hclient⟩
  obtain ⟨hlinked, hlogged, hattended⟩ := h
  refine ⟨?_, ?_, ?_⟩
  · constructor
    · intro id job conn' hjob
      show _ ↔ s.spliced conn' = some id
      have := @hlinked.socket id job conn'
      have := @hlinked.spliced conn' id
      grind [newJob]
    · intro conn' id hspliced
      obtain ⟨job, hjob⟩ := hlinked.spliced hspliced
      grind
    · exact hlinked.ready
    · intro id job hjob
      by_cases hid : id = s.nextJob
      · subst hid
        rw [hjobs, if_pos rfl] at hjob
        cases hjob
        exact ⟨conn, List.mem_append_right _ (List.mem_singleton.mpr rfl),
          client_of_device hdevice⟩
      · rw [hjobs, if_neg hid] at hjob
        exact hstarted (hlinked.owner hjob)
    · intro conn' id job hspliced hjob
      obtain ⟨old, hold⟩ := hlinked.spliced hspliced
      have hid : id ≠ s.nextJob := by
        rintro rfl
        rw [hnew] at hold
        cases hold
      rw [hjobs, if_neg hid] at hjob
      exact hlinked.client hspliced hjob
    · intro timer id harmed
      obtain ⟨job, hjob, hgrace⟩ := hlinked.timer harmed
      exact ⟨job, by grind, hgrace⟩
    · intro id job hjob hattached
      have := @hlinked.attached id job
      grind [newJob]
    · intro id id' job job' timer hjob hjob'
      have := @hlinked.grace id id'
      grind [newJob]
    · intro id job timer hjob hgrace
      have := @hlinked.nextTimer id job timer
      grind [newJob, spawn, setJob]
    · intro id job hjob
      show id < s.nextJob + 1
      by_cases hid : id = s.nextJob
      · exact hid ▸ Nat.lt_succ_self _
      · rw [hjobs, if_neg hid] at hjob
        exact Nat.lt_succ_of_lt (hlinked.nextJob hjob)
    · exact hlinked.waiting
  · refine ⟨?_, ?_, ?_, ?_⟩
    · intro id starter hmem
      rcases List.mem_append.mp hmem with hbefore | hlast
      · exact Nat.lt_succ_of_lt (hlogged.nextJob hbefore)
      · cases List.mem_singleton.mp hlast
        exact Nat.lt_succ_self _
    · show ((s.started ++ [(s.nextJob, conn)]).map Prod.fst).Nodup
      rw [List.map_append, List.nodup_append]
      refine ⟨hlogged.startedOnce, List.pairwise_singleton _ _, ?_⟩
      rintro id hmem _ hlast rfl
      obtain ⟨⟨id', starter⟩, hbefore, rfl⟩ := List.mem_map.mp hmem
      have hlt := hlogged.nextJob hbefore
      have hlast : id' = s.nextJob := List.mem_singleton.mp hlast
      exact Nat.lt_irrefl _ (hlast ▸ hlt)
    · exact fun passed hmem => hsame (hlogged.written passed hmem)
    · exact fun passed hmem => hsame (hlogged.sent passed hmem)
  · intro id job hjob hne
    rw [hjobs, if_neg fun heq => hne (congrArg some heq)] at hjob
    exact hattended id job hjob nofun

theorem wellFormed_launch (h : s.WellFormed none)
    (hdevice : (s.connections conn).device = some device) (hfree : s.spliced conn = none)
    (hidle : (s.connections conn).waiting = none) :
    (s.launch r conn device params).1.WellFormed none := by
  unfold launch
  cases s.refusal r device with
  | some late => exact h
  | none =>
      dsimp only
      split_ifs with hready
      · exact h
      · have hspawned : (s.spawn conn device params).WellFormed (some s.nextJob) :=
          wellFormed_spawn h hdevice
        have hjob : (s.spawn conn device params).jobs s.nextJob =
            some (newJob device params) := (jobs_setJob _ _).trans (if_pos rfl)
        have hopen : (s.connections conn).ready = .opened := not_not.mp hready
        refine (moves_attachSocket hspawned.linked hjob hfree ?_ (client_of_device hdevice)
          hidle).wellFormed hspawned (.inr rfl) ?_
        · show (s.connections conn).ready ≠ .closed
          rw [hopen]
          exact nofun
        · intro job hattached
          have hself : ((s.spawn conn device params).attachSocket s.nextJob
              (newJob device params) conn).jobs s.nextJob =
              some { newJob device params with grace := none, socket := some conn } :=
            (jobs_setJob _ _).trans (if_pos rfl)
          rw [show (OffloadJobs.unsplice _ _).attachSocket s.nextJob _ conn =
            (s.spawn conn device params).attachSocket s.nextJob (newJob device params) conn
            from rfl, hself] at hattached
          cases hattached
          exact .inl rfl

theorem wellFormed_attach (h : s.WellFormed none)
    (hdevice : (s.connections conn).device = some device) (hfree : s.spliced conn = none)
    (hidle : (s.connections conn).waiting = none)
    (hready : (s.connections conn).ready ≠ .closed) :
    (s.attach conn device id).1.WellFormed none := by
  unfold attach
  cases hfound : (s.jobs id).filter fun job => job.client = device.id && job.stdin.writable with
  | none => exact h
  | some job =>
      obtain ⟨hjob, hmeets⟩ := Option.filter_eq_some_iff.mp hfound
      have hclient : job.client = device.id := by
        exact of_decide_eq_true (Bool.and_eq_true _ _ ▸ hmeets).1
      refine (moves_attachSocket h.linked hjob hfree hready
        (hclient ▸ client_of_device hdevice) hidle).wellFormed h (.inl rfl) ?_
      intro job' hattached
      rw [show ((s.unsplice job.socket).attachSocket id job conn).jobs id =
        some { job with grace := none, socket := some conn } from
          (jobs_setJob _ _).trans (if_pos rfl)] at hattached
      cases hattached
      exact .inl rfl

theorem wellFormed_installed (h : s.WellFormed none)
    (hdevice : (s.connections conn).device = some device) (hfree : s.spliced conn = none)
    (hidle : (s.connections conn).waiting = none) {source : InstallSource}
    {failure : Option InstallFailure} :
    (s.installed w r conn device params source failure).1.WellFormed none := by
  unfold installed
  cases failure with
  | some failed =>
      dsimp only
      split_ifs <;> exact h
  | none =>
      dsimp only
      cases r.entry params.build with
      | absent => exact h
      | unusable why => exact h
      | installed cli => exact wellFormed_launch h hdevice hfree hidle

/-- While it prepares an install, `start` touches no job and no connection. -/
structure Prepares (s t : OffloadJobs) : Prop where
  quiet : Quiet s t
  connections : t.connections = s.connections

theorem prepares_refl : Prepares s s :=
  ⟨quiet_of_eq rfl rfl rfl rfl rfl rfl rfl rfl rfl, rfl⟩

theorem prepares_prepareUpload {package : Option PackageParams} :
    Prepares s (s.prepareUpload r conn package).1 := by
  unfold prepareUpload
  split_ifs
  · exact prepares_refl
  · cases package.filter PackageParams.valid with
    | none => exact prepares_refl
    | some package => exact ⟨quiet_of_eq rfl rfl rfl rfl rfl rfl rfl rfl rfl, rfl⟩

theorem prepares_installBuild : Prepares s (s.installBuild w r conn device params).1 := by
  unfold installBuild
  cases params.upload with
  | some id =>
      dsimp only
      cases (s.uploads conn).filter fun upload => decide (upload.id = id) with
      | none => exact prepares_refl
      | some upload =>
          dsimp only
          split_ifs
          · exact ⟨quiet_of_eq rfl rfl rfl rfl rfl rfl rfl rfl rfl, rfl⟩
          · exact ⟨quiet_of_eq rfl rfl rfl rfl rfl rfl rfl rfl rfl, rfl⟩
  | none =>
      dsimp only
      cases params.package with
      | some package => exact prepares_prepareUpload
      | none =>
          cases params.pack with
          | true => exact prepares_refl
          | false =>
              cases (s.failed params.build).filter fun recent =>
                decide (r.now - recent.2 < failedFetchMs) with
              | some recent =>
                  dsimp only [installed]
                  split_ifs <;> exact prepares_refl
              | none =>
                  dsimp only
                  split_ifs <;> exact ⟨quiet_of_eq rfl rfl rfl rfl rfl rfl rfl rfl rfl, rfl⟩

variable {jobParams : JobParams}

theorem wellFormed_start (h : s.WellFormed none)
    (hdevice : (s.connections conn).device = some device)
    (hidle : (s.connections conn).waiting = none) (hready : (s.connections conn).ready ≠ .closed) :
    (s.start w r conn device jobParams).1.WellFormed none := by
  unfold start
  split_ifs with howns
  · exact h
  · have hfree : s.spliced conn = none := by simpa [owns] using howns
    cases jobParams with
    | attach id => exact wellFormed_attach h hdevice hfree hidle hready
    | malformed => exact h
    | run params =>
        dsimp only
        cases s.refusal r device with
        | some why => exact h
        | none =>
            dsimp only
            cases r.entry params.build with
            | absent => exact prepares_installBuild.quiet.wellFormed h
            | unusable why => exact h
            | installed cli => exact wellFormed_launch h hdevice hfree hidle

/-- A `job.start` that waits has touched no job and no connection, and has no job. -/
theorem start_waits {source : InstallSource}
    (hwaits : (s.start w r conn device jobParams).2 = .waits source) :
    s.spliced conn = none ∧ Prepares s (s.start w r conn device jobParams).1 := by
  unfold start at hwaits ⊢
  split_ifs at hwaits ⊢ with howns
  refine ⟨by simpa [owns] using howns, ?_⟩
  cases jobParams with
  | attach id => cases hwaits
  | malformed => cases hwaits
  | run params =>
      dsimp only at hwaits ⊢
      cases hrefusal : s.refusal r device with
      | some why =>
          rw [hrefusal] at hwaits
          cases hwaits
      | none =>
          dsimp only
          cases hentry : r.entry params.build with
          | absent => exact prepares_installBuild
          | unusable why =>
              rw [hrefusal, hentry] at hwaits
              cases hwaits
          | installed cli =>
              rw [hrefusal, hentry] at hwaits
              cases hwaits

/-! ## Steps and runs -/

theorem wellFormed_answer (h : s.WellFormed but) (reply : Answer) :
    (s.answer conn reply).WellFormed but :=
  (quiet_of_eq rfl rfl rfl rfl rfl rfl rfl rfl rfl : Quiet s (s.answer conn reply)).wellFormed h

theorem wellFormed_jobMethod (h : s.WellFormed none)
    (hdevice : (s.connections conn).device = some device)
    (hidle : (s.connections conn).waiting = none) (hready : (s.connections conn).ready ≠ .closed) :
    (s.jobMethod w r conn device jobParams).WellFormed none := by
  unfold jobMethod
  split_ifs
  · exact wellFormed_answer h _
  · have hstart : (s.start w r conn device jobParams).1.WellFormed none :=
      wellFormed_start h hdevice hidle hready
    dsimp only
    cases hbegun : (s.start w r conn device jobParams).2 with
    | answered reply => exact wellFormed_answer hstart reply
    | waits source =>
        cases jobParams with
        | attach id => exact hstart
        | malformed => exact hstart
        | run params =>
            obtain ⟨hfree, hquiet, hconnections⟩ := start_waits hbegun
            refine (quiet_waiting ?_).wellFormed hstart
            intro next hnext
            cases hnext
            exact ⟨hquiet.spliced ▸ hfree, hconnections ▸ hdevice⟩

theorem wellFormed_deliver (h : s.WellFormed none) {frame : Frame} :
    (s.deliver conn frame).WellFormed none := by
  unfold deliver
  cases hspliced : s.spliced conn with
  | none => exact h
  | some id =>
      dsimp only
      cases hjob : s.jobs id with
      | none => exact h
      | some job =>
          dsimp only
          split_ifs
          · exact h
          · exact (quiet_breakStdin hjob).wellFormed h
          · refine ⟨?_, ?_, h.attended⟩
            · obtain ⟨h1, h2, h3, h4, h5, h6, h7, h8, h9, h10, h11⟩ := h.linked
              exact ⟨h1, h2, h3, h4, h5, h6, h7, h8, h9, h10, h11⟩
            · refine ⟨h.logged.nextJob, h.logged.startedOnce, ?_, h.logged.sent⟩
              intro passed hmem
              rcases List.mem_append.mp hmem with hbefore | hlast
              · exact h.logged.written passed hbefore
              · obtain rfl := List.mem_singleton.mp hlast
                exact ⟨job.client, h.linked.owner hjob, h.linked.client hspliced hjob⟩

theorem wellFormed_output (h : s.WellFormed none) (hjob : s.jobs id = some job)
    {frames : List Frame} : (s.output id job frames).WellFormed none := by
  unfold output
  cases hsocket : job.socket with
  | none => exact h
  | some conn =>
      dsimp only
      split_ifs
      · exact h
      · have hspliced := (h.linked.socket hjob).mp hsocket
        refine ⟨?_, ?_, h.attended⟩
        · obtain ⟨h1, h2, h3, h4, h5, h6, h7, h8, h9, h10, h11⟩ := h.linked
          exact ⟨h1, h2, h3, h4, h5, h6, h7, h8, h9, h10, h11⟩
        · refine ⟨h.logged.nextJob, h.logged.startedOnce, h.logged.written, ?_⟩
          intro passed hmem
          rcases List.mem_append.mp hmem with hbefore | hlast
          · exact h.logged.sent passed hbefore
          · obtain ⟨frame, -, rfl⟩ := List.mem_map.mp hlast
            exact ⟨job.client, h.linked.owner hjob, h.linked.client hspliced hjob⟩

theorem quiet_receive {data : List UInt8} : Quiet s (s.receive conn data).1 := by
  unfold receive
  cases s.uploads conn with
  | none => exact quiet_of_eq rfl rfl rfl rfl rfl rfl rfl rfl rfl
  | some upload =>
      dsimp only
      split_ifs <;> exact quiet_of_eq rfl rfl rfl rfl rfl rfl rfl rfl rfl

theorem wellFormed_handle (h : s.WellFormed none)
    (hidle : (s.connections conn).waiting = none) {frame : Frame} :
    (s.handle w r conn frame).WellFormed none := by
  unfold handle
  split_ifs with hopen hbinary hdevice
  · exact h
  · have hreceived : (s.receive conn frame.data).1.WellFormed none :=
      quiet_receive.wellFormed h
    dsimp only
    split
    · exact hreceived
    · exact (quiet_closeSocket _ conn).wellFormed hreceived
  · exact (quiet_closeSocket s conn).wellFormed h
  · cases hdevice : (s.connections conn).device with
    | none => exact (quiet_closeSocket s conn).wellFormed h
    | some device =>
        dsimp only
        cases w.request frame.data with
        | other => exact h
        | jobStart params =>
            have hready : (s.connections conn).ready ≠ .closed := by
              rw [not_not.mp hopen]
              exact nofun
            exact wellFormed_jobMethod h hdevice hidle hready

/-- A connection without a job may report its close. -/
theorem wellFormed_closed (h : s.WellFormed none) (hfree : s.spliced conn = none) :
    (s.setConnection conn { s.connections conn with ready := .closed }).WellFormed none := by
  have hconnections : ∀ conn',
      ((s.setConnection conn { s.connections conn with ready := .closed }).connections conn').device =
        (s.connections conn').device ∧
      ((s.setConnection conn { s.connections conn with ready := .closed }).connections conn').waiting =
        (s.connections conn').waiting := by
    intro conn'
    by_cases hconn : conn' = conn
    · subst hconn
      simp [setConnection]
    · simp [setConnection, hconn]
  have hclient : ∀ conn', (s.setConnection conn
      { s.connections conn with ready := .closed }).client conn' = s.client conn' := by
    intro conn'
    rw [client, client, (hconnections conn').1]
  have hstarted : ∀ {id name}, s.StartedBy id name → (s.setConnection conn
      { s.connections conn with ready := .closed }).StartedBy id name := by
    rintro id name ⟨starter, hmem, hname⟩
    exact ⟨starter, hmem, (hclient starter).trans hname⟩
  have hsame : ∀ {passed}, s.SameClient passed → (s.setConnection conn
      { s.connections conn with ready := .closed }).SameClient passed := by
    rintro passed ⟨name, hby, hname⟩
    exact ⟨name, hstarted hby, (hclient _).trans hname⟩
  obtain ⟨hlinked, hlogged, hattended⟩ := h
  refine ⟨?_, ?_, hattended⟩
  · refine ⟨hlinked.socket, hlinked.spliced, ?_, ?_, ?_, hlinked.timer, hlinked.attached,
      hlinked.grace, hlinked.nextTimer, hlinked.nextJob, ?_⟩
    · intro conn' id hspliced
      have hother : conn' ≠ conn := by
        rintro rfl
        rw [show s.spliced conn' = some id from hspliced] at hfree
        cases hfree
      simpa [setConnection, hother] using hlinked.ready hspliced
    · exact fun hjob => hstarted (hlinked.owner hjob)
    · exact fun hspliced hjob => (hclient _).trans (hlinked.client hspliced hjob)
    · intro conn' waiting hwaiting
      rw [(hconnections conn').2] at hwaiting
      rw [(hconnections conn').1]
      exact hlinked.waiting hwaiting
  · exact ⟨hlogged.nextJob, hlogged.startedOnce, fun passed hmem => hsame (hlogged.written passed hmem),
      fun passed hmem => hsame (hlogged.sent passed hmem)⟩

/-- Reading the connections or not, a close is handled in the same way. -/
theorem disconnected_setConnection (conn' : ConnId) (connection : Connection) (code : Nat) :
    (s.setConnection conn' connection).disconnected conn code =
      (s.disconnected conn code).setConnection conn' connection := by
  unfold disconnected setConnection
  dsimp only
  generalize (decide (code ≠ closeAbnormal) || s.closed) = ends
  cases hspliced : s.spliced conn with
  | none => rfl
  | some id =>
      dsimp only [splice]
      cases s.jobs id with
      | none => rfl
      | some job => cases ends <;> rfl

theorem wellFormed_reportClose (h : s.WellFormed none) (code : Nat) :
    ((s.setConnection conn { s.connections conn with ready := .closed }).disconnected
      conn code).WellFormed none := by
  cases hspliced : s.spliced conn with
  | none =>
      have hclosed := wellFormed_closed h hspliced
      have hfree : (s.setConnection conn
          { s.connections conn with ready := .closed }).spliced conn = none := hspliced
      rw [disconnected_of_none hfree]
      exact (quiet_uploads _ _).wellFormed hclosed
  | some id =>
      obtain ⟨job, hjob⟩ := h.linked.spliced hspliced
      obtain ⟨-, hs, -, -, hconnections, -⟩ := disconnected_fields hspliced hjob code
      have hleft := wellFormed_disconnected h hjob hspliced code
      rw [disconnected_setConnection, ← hconnections]
      exact wellFormed_closed hleft ((hs conn).trans (if_pos rfl))

theorem quiet_endStdin (s : OffloadJobs) (which : Job → Bool) :
    Quiet s { s with
      jobs := fun id => (s.jobs id).map fun job => if which job then job.endStdin else job } := by
  refine ⟨?_, rfl, rfl, rfl, rfl, rfl, rfl, rfl, fun _ _ h => h, fun _ h => h,
    fun _ waiting h => .inr ⟨waiting, h, rfl⟩⟩
  intro id
  cases hjob : s.jobs id with
  | none => simp [KeepsJob, hjob]
  | some job =>
      cases hwhich : which job <;> simp [KeepsJob, hjob, hwhich, Job.endStdin]

theorem step_wellFormed {action : Action} (h : s.WellFormed none)
    (hstep : step w s action = some t) : t.WellFormed none := by
  cases action with
  | hello conn device =>
      simp only [step, Bool.and_eq_true, decide_eq_true_eq] at hstep
      split_ifs at hstep with hnew
      cases hstep
      exact (quiet_hello (Option.isNone_iff_eq_none.mp hnew.2) device).wellFormed h
  | message conn frame =>
      simp only [step] at hstep
      split_ifs at hstep
      · cases hstep
        exact wellFormed_deliver h
      · cases hstep
        exact (quiet_queue s conn _).wellFormed h
  | handle conn reading =>
      simp only [step] at hstep
      split at hstep
      · rename_i frame rest hidle hqueue
        cases hstep
        refine wellFormed_handle ((quiet_queue s conn rest).wellFormed h) ?_
        simpa [setConnection] using hidle
      · cases hstep
  | fetched build failure now =>
      simp only [step] at hstep
      split_ifs at hstep
      cases hstep
      exact (quiet_fetched s build failure now).wellFormed h
  | unpacked conn failure =>
      simp only [step] at hstep
      split at hstep
      · cases hstep
      · rename_i before hbefore
        split_ifs at hstep
        cases hstep
        refine (quiet_waiting ?_).wellFormed h
        intro next hnext
        cases hnext
        have hbefore := h.linked.waiting hbefore
        exact hbefore
  | resume conn reading =>
      simp only [step] at hstep
      split at hstep
      · cases hstep
      · rename_i waiting hwaiting
        split at hstep
        · cases hstep
        · rename_i failure hended
          cases hstep
          obtain ⟨hfree, hdevice⟩ := h.linked.waiting hwaiting
          have hresumed := (quiet_resume s conn).wellFormed h
          refine wellFormed_answer (wellFormed_installed hresumed ?_ hfree ?_) _
          · simpa [setConnection] using hdevice
          · simp [setConnection]
  | closing conn =>
      simp only [step] at hstep
      split_ifs at hstep
      cases hstep
      exact (quiet_closeSocket s conn).wellFormed h
  | reportClose conn code =>
      simp only [step] at hstep
      split_ifs at hstep
      cases hstep
      exact wellFormed_reportClose h code
  | expire timer =>
      simp only [step] at hstep
      split at hstep
      · cases hstep
      · rename_i id harmed
        cases hstep
        exact wellFormed_expire h harmed
  | output id frames =>
      simp only [step] at hstep
      split at hstep
      · cases hstep
      · rename_i job hjob
        cases hstep
        exact wellFormed_output h hjob
  | breakStdin id =>
      simp only [step] at hstep
      split at hstep
      · cases hstep
      · rename_i job hjob
        cases hstep
        exact (quiet_breakStdin hjob).wellFormed h
  | exit id =>
      simp only [step] at hstep
      split at hstep
      · cases hstep
      · rename_i job hjob
        cases hstep
        exact wellFormed_exited h hjob
  | stop client =>
      cases hstep
      exact (quiet_endStdin s fun job => client.all (job.client = ·)).wellFormed h
  | close =>
      cases hstep
      have hclosed : Quiet s { s with closed := true } :=
        quiet_of_eq rfl rfl rfl rfl rfl rfl rfl rfl rfl
      exact (quiet_endStdin _ fun job => none.all (job.client = ·)).wellFormed
        (hclosed.wellFormed h)

/-- In every run, jobs stay with their clients and are not leaked. -/
theorem owned_of_run (w : Worker) (actions : List Action)
    (hrun : Machine.run (step w) init actions = some s) : s.Owned :=
  (Machine.invariant_run (fun _ _ _ => step_wellFormed) wellFormed_init hrun).owned

/-- A build that is installed everywhere. -/
def sampleParams : RunParams := ⟨.build, "1.0.0", "0123456789ab", "app-1", none, none, false, false⟩

def sampleWorker : Worker where
  machine := "mini"
  sha256 := fun _ => ""
  request := fun
    | [0] => .jobStart (.run sampleParams)
    | [1] => .jobStart (.attach 0)
    | _ => .other

def sampleReading : Reading where
  entry := fun _ => .installed "cli"
  admission := fun _ => none
  buildAllowed := fun _ => true
  acceptsClientBuilds := false
  now := 0

/-- A job whose connection drops is attached to the client's next one, and not to another's. -/
def droppedConnection : List Action :=
  [.hello 0 ⟨"a", "laptop"⟩, .message 0 ⟨[0], false⟩, .handle 0 sampleReading,
    .message 0 ⟨[7], true⟩, .output 0 [⟨[8], true⟩], .reportClose 0 1006,
    .hello 1 ⟨"b", "desk"⟩, .message 1 ⟨[1], false⟩, .handle 1 sampleReading,
    .hello 2 ⟨"a", "laptop"⟩, .message 2 ⟨[1], false⟩, .handle 2 sampleReading,
    .message 2 ⟨[9], true⟩]

theorem owned_of_run_droppedConnection :
    ∃ s, Machine.run (step sampleWorker) init droppedConnection = some s ∧ s.Owned ∧
      s.spliced 2 = some 0 ∧ s.spliced 1 = none ∧
      s.written = [⟨0, 0, ⟨[7], true⟩⟩, ⟨2, 0, ⟨[9], true⟩⟩] := by
  obtain ⟨s, hrun⟩ : ∃ s, Machine.run (step sampleWorker) init droppedConnection = some s :=
    ⟨_, rfl⟩
  refine ⟨s, hrun, owned_of_run sampleWorker droppedConnection hrun, ?_⟩
  cases hrun
  decide +kernel

end Stim.Server.OffloadJobs
