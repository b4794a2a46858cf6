import Stim.Cli.NativeLogs

/-!
# Overlapping windows

Each window reaches at least as far as the one before, and begins within it; the checkpoint's
digests are those of the lines in what the two share.  So what the runs append is every line from
the beginning to the end of the last window, as often as the log has it.

The last window ends with the checkpoint, or a second after it when the checkpoint is the second
of the run that collected it.
-/

namespace Stim.NativeLogs

variable {δ : Type}

/-! ## The windows of a run -/

/-- A run that collects what it can, and goes on where the run before ended. -/
def polled (since : Nat) : Options := ⟨since, false, false⟩

/-- A window of a run: it begins where the first one does, and goes on from the checkpoint. -/
structure WindowOf (since : Nat) (s : Collected δ) (now : Nat) (window : Window) : Prop where
  start_eq : window.start = (firstWindow (polled since) s now).start
  until_eq : window.untilMs = min now (checkpointOf (polled since) s + window.windowMs)
  least : 1000 ≤ window.windowMs
  most : window.windowMs ≤ max 1000 now

theorem windowMs_of_valid {stored : Option (Checkpoint δ)} {previous : Checkpoint δ} {windowMs : Nat}
    (h : readHostedNativeLogsCheckpoint stored = some previous)
    (hwindow : previous.windowMs = some windowMs) : 1000 ≤ windowMs := by
  have hvalid := (Option.filter_eq_some_iff.mp h).2
  rw [hwindow] at hvalid
  simp only [Bool.and_eq_true, Option.all_some, decide_eq_true_eq] at hvalid
  exact hvalid.2.2

theorem windowOf_first (since : Nat) (s : Collected δ) (now : Nat) :
    WindowOf since s now (firstWindow (polled since) s now) := by
  refine ⟨rfl, rfl, ?_, ?_⟩
  · unfold firstWindow
    dsimp only [polled, Options.endsLog]
    cases hprevious : readHostedNativeLogsCheckpoint s.checkpoint with
    | none => exact Nat.le_max_left _ _
    | some previous =>
        rw [Option.bind_some]
        cases hwindow : previous.windowMs with
        | none => exact Nat.le_max_left _ _
        | some known =>
            have hknown := windowMs_of_valid hprevious hwindow
            simp only [Bool.or_self, Bool.false_eq_true, if_false]
            omega
  · have hbacklog : max 1000 (now - checkpointOf (polled since) s) ≤ max 1000 now := by omega
    unfold firstWindow
    dsimp only
    split
    · split_ifs
      · exact hbacklog
      · exact (Nat.min_le_right _ _).trans hbacklog
    · exact hbacklog

variable {s : Collected δ} {since : Nat}

theorem windowOf_shorter {now : Nat} {window next : Window} (h : WindowOf since s now window)
    (hnext : shorter (polled since) now (checkpointOf (polled since) s) window = some next) :
    WindowOf since s now next := by
  have huntil := h.until_eq
  have hmost := h.most
  unfold shorter at hnext
  simp only [polled, Options.endsLog, Bool.or_self, Bool.false_eq_true, if_false] at hnext
  split_ifs at hnext with hspan
  cases hnext
  refine ⟨h.start_eq, rfl, Nat.le_max_left _ _, ?_⟩
  change window.untilMs = min now (checkpointOf ⟨since, false, false⟩ s + window.windowMs) at huntil
  dsimp only
  omega

variable {window : Window}

theorem queries_spec {now : Nat} {attempts : List (Option (Answer δ))}
    (h : WindowOf since s now window) :
    (∀ windowMs ∈ (queries (polled since) now (checkpointOf (polled since) s) window attempts).1,
        1000 ≤ windowMs ∧ windowMs ≤ max 1000 now) ∧
      ∀ answered ∈ (queries (polled since) now (checkpointOf (polled since) s) window attempts).2,
        WindowOf since s now answered.1 ∧ ∃ answer, some answer ∈ attempts ∧
          answered.2 = answer answered.1.start (answered.1.stop now) := by
  induction attempts generalizing window with
  | nil => simp [queries]
  | cons attempt attempts ih =>
      cases attempt with
      | some answer =>
          simp only [queries, Option.mem_def, reduceCtorEq, false_implies, implies_true, true_and,
            Option.some.injEq]
          rintro answered rfl
          exact ⟨h, answer, List.mem_cons_self, rfl⟩
      | none =>
          unfold queries
          cases hnext : shorter (polled since) now (checkpointOf (polled since) s) window with
          | none => simp
          | some next =>
              have hwindow := windowOf_shorter h hnext
              obtain ⟨hsaved, hanswered⟩ := ih hwindow
              refine ⟨fun windowMs hmem => ?_, fun answered hmem => ?_⟩
              · obtain hlater | ⟨-, hhere⟩ := Option.or_eq_some_iff.mp hmem
                · exact hsaved windowMs hlater
                · cases hhere
                  exact ⟨hwindow.least, hwindow.most⟩
              · obtain ⟨hof, answer, hin, heq⟩ := hanswered answered hmem
                exact ⟨hof, answer, List.mem_cons_of_mem _ hin, heq⟩

/-! ## What a checkpoint stands for -/

/-- The query answers with every line of the log in its window. -/
def Answers (log : List (Event δ)) (answer : Answer δ) : Prop :=
  ∀ start stop, ((answer start stop).filter (within start stop)).Perm
    (log.filter (within start stop))

/-- What a checkpoint stands for: the lines from the beginning to the end of its window, which
was answered in the second `now`. -/
structure Reached (log : List (Event δ)) (since now : Nat) (s : Collected δ)
    (checkpoint : Checkpoint δ) : Prop where
  valid : readHostedNativeLogsCheckpoint (some checkpoint) = some checkpoint
  beginning_le : (polled since).beginning ≤ checkpoint.untilMs
  stop_eq : s.stop =
    if checkpoint.untilMs = now then checkpoint.untilMs + 1000 else checkpoint.untilMs
  boundary : checkpoint.boundary.Perm ((log.filter (within
    (max (polled since).beginning (checkpoint.untilMs - 5000)) s.stop)).map Event.digest)
  device : ∃ lines : List (Event δ), s.device = lines.map .line ∧
    lines.Perm (log.filter (within (polled since).beginning s.stop))

/-- `answered` is the second of the last run that had an answer. -/
structure Sound (log : List (Event δ)) (since : Nat) (answered : Option Nat) (s : Collected δ) :
    Prop where
  empty : s.checkpoint = none → s.device = []
  reached : ∀ checkpoint, s.checkpoint = some checkpoint →
    ∃ now, answered = some now ∧ Reached log since now s checkpoint

variable {log : List (Event δ)}

theorem Reached.stop_le {since now : Nat} {checkpoint : Checkpoint δ}
    (h : Reached log since now s checkpoint) :
    checkpoint.untilMs ≤ s.stop ∧ s.stop ≤ checkpoint.untilMs + 1000 := by
  have hstop := h.stop_eq
  split_ifs at hstop <;> omega

theorem sound_nothing (log : List (Event δ)) (since : Nat) : Sound log since none nothing :=
  ⟨fun _ => rfl, fun checkpoint h => by cases h⟩

theorem wholeSecond_wholeSecond (ms : Nat) : wholeSecond (wholeSecond ms) = wholeSecond ms := by
  unfold wholeSecond
  omega

theorem isSafeInteger_of_le {n : Nat} (h : n ≤ MAX_TIME) : isSafeInteger n = true :=
  decide_eq_true (by unfold MAX_TIME at h; omega)

theorem valid_of_bounds {untilMs : Nat} {boundary : List δ} {windowMs : Option Nat}
    (huntil : isSafeInteger untilMs = true)
    (hwindow : ∀ known ∈ windowMs, 1000 ≤ known ∧ known ≤ MAX_TIME) :
    readHostedNativeLogsCheckpoint (some ⟨untilMs, boundary, windowMs⟩) =
      some ⟨untilMs, boundary, windowMs⟩ := by
  unfold readHostedNativeLogsCheckpoint
  rw [Option.filter_some, if_pos]
  rw [Bool.and_eq_true]
  refine ⟨huntil, ?_⟩
  cases windowMs with
  | none => rfl
  | some known =>
      obtain ⟨hleast, hmost⟩ := hwindow known rfl
      rw [Option.all_some, isSafeInteger_of_le hmost]
      exact decide_eq_true hleast

theorem wholeSecond_le_max {r : Run δ} : wholeSecond r.clock ≤ MAX_TIME := by
  have hclock := r.clock_le
  unfold wholeSecond
  omega

variable {answered : Option Nat}

theorem plan_of_none (h : Sound log since answered s) (hnone : s.checkpoint = none) (now : Nat) :
    checkpointOf (polled since) s = (polled since).beginning ∧
      (firstWindow (polled since) s now).start = (polled since).beginning := by
  have hread : readHostedNativeLogsCheckpoint s.checkpoint = none := by
    rw [hnone]
    rfl
  have hcheckpoint : checkpointOf (polled since) s = (polled since).beginning := by
    unfold checkpointOf
    rw [hread, h.empty hnone]
    exact Nat.max_eq_left (Nat.le_of_eq (wholeSecond_wholeSecond since))
  refine ⟨hcheckpoint, ?_⟩
  unfold firstWindow
  rw [hread, hcheckpoint]
  exact Nat.max_self _

theorem plan_of_some {checkpoint : Checkpoint δ} (h : Sound log since answered s)
    (hsome : s.checkpoint = some checkpoint) (now : Nat) :
    readHostedNativeLogsCheckpoint s.checkpoint = some checkpoint ∧
      checkpointOf (polled since) s = checkpoint.untilMs ∧
      (firstWindow (polled since) s now).start =
        max (polled since).beginning (checkpoint.untilMs - 5000) := by
  have hread : readHostedNativeLogsCheckpoint s.checkpoint = some checkpoint := by
    rw [hsome]
    obtain ⟨_, -, hreached⟩ := h.reached checkpoint hsome
    exact hreached.valid
  have hcheckpoint : checkpointOf (polled since) s = checkpoint.untilMs := by
    unfold checkpointOf
    rw [hread]
  refine ⟨hread, hcheckpoint, ?_⟩
  unfold firstWindow
  dsimp only
  rw [hread, hcheckpoint, Option.isSome_some, if_pos rfl]

/-- Failed queries leave the lines, and the checkpoint where it was. -/
theorem shortened_sound (h : Sound log since answered s) {windowMs : Option Nat}
    (hwindow : ∀ known ∈ windowMs, 1000 ≤ known ∧ known ≤ MAX_TIME) :
    Sound log since answered { s with checkpoint := shortened (polled since) s windowMs } ∧
      ∀ previous, s.checkpoint = some previous → ∃ checkpoint,
        shortened (polled since) s windowMs = some checkpoint ∧
          previous.untilMs ≤ checkpoint.untilMs := by
  cases hprevious : s.checkpoint with
  | none =>
      have hsame : shortened (polled since) s windowMs = none := by
        unfold shortened
        rw [hprevious]
        cases windowMs <;> rfl
      rw [hsame]
      exact ⟨⟨fun _ => h.empty hprevious, fun _ hno => (by cases hno)⟩, fun _ hno => (by cases hno)⟩
  | some previous =>
      obtain ⟨hread, hplan, -⟩ := plan_of_some h hprevious 0
      obtain ⟨now, hanswered, hreached⟩ := h.reached previous hprevious
      cases windowMs with
      | none =>
          have hsame : shortened (polled since) s none = some previous := hprevious
          rw [hsame]
          refine ⟨⟨fun hno => (by cases hno), fun checkpoint hsome => ?_⟩, fun _ hold => ⟨previous, rfl, ?_⟩⟩
          · cases hsome
            exact ⟨now, hanswered, hreached.valid, hreached.beginning_le, hreached.stop_eq,
              hreached.boundary, hreached.device⟩
          · cases hold
            exact Nat.le_refl _
      | some known =>
          have hsame : shortened (polled since) s (some known) =
              some { previous with untilMs := previous.untilMs, windowMs := some known } := by
            unfold shortened
            rw [hread, hplan]
          rw [hsame]
          refine ⟨⟨fun hno => (by cases hno), fun checkpoint hsome => ?_⟩, fun _ hold => ⟨_, rfl, ?_⟩⟩
          · cases hsome
            refine ⟨now, hanswered, ?_, hreached.beginning_le, hreached.stop_eq, hreached.boundary,
              hreached.device⟩
            have hsafe := (Option.filter_eq_some_iff.mp hreached.valid).2
            rw [Bool.and_eq_true] at hsafe
            exact valid_of_bounds hsafe.1 hwindow
          · cases hold
            exact Nat.le_refl _

/-! ## Lines of a window -/

@[simp]
theorem marked_seen (window : Window) (s : Sifted δ) (event : Event δ) :
    (marked window s event).seen = s.seen := by
  unfold marked
  split_ifs <;> rfl

@[simp]
theorem marked_records (window : Window) (s : Sifted δ) (event : Event δ) :
    (marked window s event).records = s.records := by
  unfold marked
  split_ifs <;> rfl

theorem within_cases {beginning start stop later : Nat} (hbeginning : beginning ≤ start)
    (hstart : start ≤ stop) (hstop : stop ≤ later) (event : Event δ) (n : Nat) :
    (if within beginning stop event then n else 0) +
        ((if within start later event then n else 0) -
          (if within start stop event then n else 0)) =
      if within beginning later event then n else 0 := by
  unfold within
  cases event.ts with
  | none => rfl
  | some ts =>
      have hbeginning' : (beginning : Rat) ≤ start := by exact_mod_cast hbeginning
      have hstart' : (start : Rat) ≤ stop := by exact_mod_cast hstart
      have hstop' : (stop : Rat) ≤ later := by exact_mod_cast hstop
      by_cases hfirst : (start : Rat) ≤ ts
      · have hfrom := hbeginning'.trans hfirst
        by_cases hlast : ts ≤ (stop : Rat)
        · simp [hfirst, hfrom, hlast, hlast.trans hstop']
        · simp [hfirst, hfrom, hlast]
      · have hlast : ts ≤ (stop : Rat) := (le_of_not_ge hfirst).trans hstart'
        simp [hfirst, hlast, hlast.trans hstop']

/-- The lines that the next window sees again. -/
theorem overlapping {log events : List (Event δ)} {beginning stop : Nat}
    (hbeginning : beginning ≤ window.start)
    (hstart : window.start ≤ max beginning (window.untilMs - 5000))
    (hevents : (events.filter (within window.start stop)).Perm
      (log.filter (within window.start stop))) :
    ((events.filter (within window.start stop)).filter (overlaps window)).Perm
      (log.filter (within (max beginning (window.untilMs - 5000)) stop)) := by
  refine (hevents.filter _).trans (List.Perm.of_eq ?_)
  rw [List.filter_filter]
  refine List.filter_congr fun event _ => ?_
  unfold within overlaps
  cases event.ts with
  | none => rfl
  | some ts =>
      have hbeginning' : (beginning : Rat) ≤ window.start := by exact_mod_cast hbeginning
      have hstart' : (window.start : Rat) ≤ (max beginning (window.untilMs - 5000) : Nat) := by
        exact_mod_cast hstart
      have hmax : ((max beginning (window.untilMs - 5000) : Nat) : Rat) ≤ ts ↔
          (window.start : Rat) ≤ ts ∧ ((window.untilMs - 5000 : Nat) : Rat) ≤ ts := by
        constructor
        · intro hle
          refine ⟨hstart'.trans hle, le_trans ?_ hle⟩
          exact_mod_cast Nat.le_max_right _ _
        · rintro ⟨hfrom, hover⟩
          rw [Nat.cast_max]
          exact max_le (hbeginning'.trans hfrom) hover
      simp only [Option.any_some, hmax]
      by_cases hover : ((window.untilMs - 5000 : Nat) : Rat) ≤ ts
      · simp only [hover, and_true]
        rfl
      · simp only [hover, and_false, decide_false, Bool.false_and]

variable [DecidableEq δ]

@[simp]
theorem kept_boundary (s : Sifted δ) (event : Event δ) : (kept s event).boundary = s.boundary := by
  unfold kept
  split_ifs <;> rfl

theorem sift_boundary (window : Window) (stop : Nat) (newest : Option Rat) (s : Sifted δ)
    (events : List (Event δ)) :
    (events.foldl (sift window stop newest) s).boundary = s.boundary ++
      ((events.filter (within window.start stop)).filter (overlaps window)).map Event.digest := by
  induction events generalizing s with
  | nil => exact (List.append_nil _).symm
  | cons event events ih =>
      have hstep : (sift window stop newest s event).boundary = s.boundary ++
          (([event].filter (within window.start stop)).filter (overlaps window)).map
            Event.digest := by
        unfold sift
        by_cases hwithin : within window.start stop event = true
        · by_cases hoverlaps : overlaps window event = true
          · simp [hwithin, marked, hoverlaps, apply_ite Sifted.boundary]
          · simp [hwithin, marked, hoverlaps, apply_ite Sifted.boundary]
        · simp [hwithin]
      rw [List.foldl_cons, ih, hstep, List.append_assoc, ← List.map_append, ← List.filter_append,
        ← List.filter_append]
      rfl

/-- With no newest time, the lines of a window that are kept are those that are not known. -/
theorem sift_records (window : Window) (stop : Nat) (s : Sifted δ) (events : List (Event δ)) :
    (events.foldl (sift window stop none) s).records = s.records ++
      Counted.unknown Event.digest s.seen (events.filter (within window.start stop)) := by
  induction events generalizing s with
  | nil => exact (List.append_nil _).symm
  | cons event events ih =>
      have hnew : notNewer none event = false := by
        unfold notNewer
        cases event.ts <;> rfl
      rw [List.foldl_cons, ih, sift]
      by_cases hwithin : within window.start stop event = true
      · rw [if_pos hwithin, hnew, List.filter_cons_of_pos hwithin, Counted.unknown]
        by_cases hseen : s.seen event.digest = 0
        · simp [kept, hseen]
        · simp [kept, hseen]
      · rw [if_neg hwithin, List.filter_cons_of_neg hwithin]

/-- A window that goes on from another one: what is appended of it is what the other one had not
reached. -/
theorem extend_window {log events lines : List (Event δ)} {boundary : List δ}
    {beginning start stop later : Nat}
    (hdigest : ∀ a ∈ log, ∀ b ∈ log, a.digest = b.digest → a = b)
    (hbeginning : beginning ≤ start) (hstart : start ≤ stop) (hstop : stop ≤ later)
    (hevents : events.Perm (log.filter (within start later)))
    (hlines : lines.Perm (log.filter (within beginning stop)))
    (hboundary : boundary.Perm ((log.filter (within start stop)).map Event.digest)) :
    (lines ++ Counted.unknown Event.digest (boundary.foldl Counted.know fun _ => 0) events).Perm
      (log.filter (within beginning later)) := by
  refine List.perm_iff_count.mpr fun event => ?_
  rw [List.count_append, hlines.count_eq]
  by_cases hmem : event ∈ log
  · have hkeyEvents : ∀ other ∈ events, other.digest = event.digest → other = event :=
      fun other hother => hdigest other (List.mem_filter.mp (hevents.mem_iff.mp hother)).1 event hmem
    have hkeyLog : ∀ other ∈ log.filter (within start stop),
        other.digest = event.digest → other = event :=
      fun other hother => hdigest other (List.mem_filter.mp hother).1 event hmem
    rw [Counted.count_unknown hkeyEvents, Counted.foldl_know, hboundary.count_eq,
      Counted.count_map_key hkeyLog, hevents.count_eq]
    have hcount : ∀ p, (log.filter p).count event = if p event then log.count event else 0 := by
      intro p
      split_ifs with hp
      · exact List.count_filter hp
      · exact List.count_eq_zero.mpr fun hin => hp (List.mem_filter.mp hin).2
    rw [hcount, hcount, hcount, hcount, Nat.zero_add]
    exact within_cases hbeginning hstart hstop event _
  · have hnone : ∀ p, (log.filter p).count event = 0 := fun p =>
      List.count_eq_zero.mpr fun hfilter => hmem (List.mem_filter.mp hfilter).1
    have hunknown : (Counted.unknown Event.digest (boundary.foldl Counted.know fun _ => 0)
        events).count event = 0 := by
      refine List.count_eq_zero.mpr fun hin => hmem ?_
      exact (List.mem_filter.mp (hevents.mem_iff.mp ((Counted.unknown_sublist _ _).subset hin))).1
    rw [hunknown, hnone, hnone]

/-! ## Runs -/

/-- The lines of a window that were not known to the checkpoint before it. -/
def news (s : Collected δ) (window : Window) (stop : Nat) (events : List (Event δ)) :
    List (Event δ) :=
  Counted.unknown Event.digest
    ((((readHostedNativeLogsCheckpoint s.checkpoint).map Checkpoint.boundary).getD []).foldl
      Counted.know fun _ => 0) (events.filter (within window.start stop))

theorem stored_eq {options : Options} {now : Nat} (events : List (Event δ))
    (hnewest : (readHostedNativeLogsCheckpoint s.checkpoint).isSome = false → s.device = [])
    (hgap : window.start ≤ checkpointOf options s) :
    stored options s now window events =
      { checkpoint := some
          { untilMs := window.untilMs
            boundary := ((events.filter (within window.start (window.stop now))).filter
              (overlaps window)).map Event.digest
            windowMs := if window.untilMs < now then some window.windowMs else none }
        device := s.device ++ (news s window (window.stop now) events).map .line
        stop := window.stop now } := by
  have hnone : (if (readHostedNativeLogsCheckpoint s.checkpoint).isSome = true then none
      else newestOf s.device) = none := by
    cases hsome : (readHostedNativeLogsCheckpoint s.checkpoint).isSome with
    | true => rfl
    | false =>
        rw [hnewest hsome]
        rfl
  unfold stored
  dsimp only
  rw [hnone, sift_boundary, sift_records, if_neg (Nat.not_lt.mpr hgap), List.append_nil,
    List.nil_append, List.nil_append]
  rfl

/-- A window that was answered leaves every line to its end, and moves the checkpoint on. -/
theorem stored_reached {since now : Nat} {answer : Answer δ}
    (hdigest : ∀ a ∈ log, ∀ b ∈ log, a.digest = b.digest → a = b) (h : Sound log since answered s)
    (hnow : now ≤ MAX_TIME) (hcheckpoint : checkpointOf (polled since) s ≤ now)
    (hwindow : WindowOf since s now window) (hanswer : Answers log answer) :
    Sound log since (some now)
        (stored (polled since) s now window (answer window.start (window.stop now))) ∧
      ∀ previous, s.checkpoint = some previous → previous.untilMs ≤ window.untilMs := by
  have huntil := hwindow.until_eq
  have hleast := hwindow.least
  have hmost := hwindow.most
  have hlater : checkpointOf (polled since) s + 1000 ≤ window.stop now := by
    unfold Window.stop
    split_ifs with hpresent <;> omega
  have hanswered := hanswer window.start (window.stop now)
  have hbound : isSafeInteger window.untilMs = true := isSafeInteger_of_le (by omega)
  have hvalid : ∀ known ∈ (if window.untilMs < now then some window.windowMs else none),
      1000 ≤ known ∧ known ≤ MAX_TIME := by
    intro known hknown
    obtain ⟨-, heq⟩ := Option.ite_none_right_eq_some.mp hknown
    cases heq
    refine ⟨hleast, hmost.trans (max_le ?_ hnow)⟩
    unfold MAX_TIME
    omega
  cases hprevious : s.checkpoint with
  | none =>
      obtain ⟨hplan, hfirst⟩ := plan_of_none h hprevious now
      have hstart : window.start = (polled since).beginning := hwindow.start_eq.trans hfirst
      have heq : stored (polled since) s now window _ = _ :=
        stored_eq (answer window.start (window.stop now)) (fun _ => h.empty hprevious) (by omega)
      refine ⟨⟨fun hno => (by cases hno), fun checkpoint hsome => ?_⟩, fun _ hno => (by cases hno)⟩
      rw [heq] at hsome ⊢
      cases hsome
      refine ⟨now, rfl, valid_of_bounds hbound hvalid, by dsimp only; omega, rfl,
        (overlapping (Nat.le_of_eq hstart.symm) (by omega) hanswered).map _, ?_⟩
      refine ⟨news s window (window.stop now) (answer window.start (window.stop now)), ?_, ?_⟩
      · dsimp only
        rw [h.empty hprevious, List.nil_append]
      · unfold news
        rw [hprevious, ← hstart]
        show (Counted.unknown Event.digest (fun _ => 0) _).Perm _
        rw [Counted.unknown_zero]
        exact hanswered
  | some previous =>
      obtain ⟨hread, hplan, hfirst⟩ := plan_of_some h hprevious now
      have hstart : window.start = max (polled since).beginning (previous.untilMs - 5000) :=
        hwindow.start_eq.trans hfirst
      obtain ⟨_, -, hreached⟩ := h.reached previous hprevious
      have hbeginning := hreached.beginning_le
      have hstopBefore := hreached.stop_le
      have hmoves : previous.untilMs ≤ window.untilMs := by omega
      have heq : stored (polled since) s now window _ = _ :=
        stored_eq (answer window.start (window.stop now)) (fun hno => by rw [hread] at hno; cases hno)
          (by omega)
      refine ⟨⟨fun hno => (by cases hno), fun checkpoint hsome => ?_⟩, fun _ hsame => ?_⟩
      · rw [heq] at hsome ⊢
        cases hsome
        obtain ⟨lines, hdevice, hlines⟩ := hreached.device
        have hboundary := hreached.boundary
        rw [← hstart] at hboundary
        refine ⟨now, rfl, valid_of_bounds hbound hvalid, hbeginning.trans hmoves, rfl,
          (overlapping (by omega) (by omega) hanswered).map _, ?_⟩
        refine ⟨lines ++ news s window (window.stop now) (answer window.start (window.stop now)),
          ?_, ?_⟩
        · dsimp only
          rw [hdevice, List.map_append]
        · unfold news
          rw [hread]
          exact extend_window hdigest (by omega) (by omega) (by dsimp only; omega) hanswered hlines
            hboundary
      · cases hsame
        exact hmoves

/-- The present second of a run that had an answer. -/
def answeredAt (options : Options) (s : Collected δ) (r : Run δ) : Option Nat :=
  let now := wholeSecond r.clock
  if now < checkpointOf options s then none
  else (queries options now (checkpointOf options s) (firstWindow options s now) r.attempts).2.map
    fun _ => now

/-- The second of the last of the runs that had an answer. -/
def lastAnswered (options : Options) : Collected δ → List (Run δ) → Option Nat
  | _, [] => none
  | s, r :: runs =>
      (lastAnswered options (collectHostedNativeLogs options s r) runs).or (answeredAt options s r)

theorem collect_sound {r : Run δ} (hdigest : ∀ a ∈ log, ∀ b ∈ log, a.digest = b.digest → a = b)
    (h : Sound log since answered s)
    (hanswers : ∀ answer, some answer ∈ r.attempts → Answers log answer) :
    Sound log since ((answeredAt (polled since) s r).or answered)
        (collectHostedNativeLogs (polled since) s r) ∧
      ∀ previous, s.checkpoint = some previous → ∃ checkpoint,
        (collectHostedNativeLogs (polled since) s r).checkpoint = some checkpoint ∧
          previous.untilMs ≤ checkpoint.untilMs := by
  have hnow : wholeSecond r.clock ≤ MAX_TIME := wholeSecond_le_max
  obtain ⟨hsaved, hanswered⟩ := @queries_spec _ s since _ _ r.attempts
    (windowOf_first since s (wholeSecond r.clock))
  unfold collectHostedNativeLogs answeredAt
  dsimp only
  split_ifs with hbehind
  · exact ⟨h, fun previous hprevious => ⟨previous, hprevious, Nat.le_refl _⟩⟩
  · cases hresult : (queries (polled since) (wholeSecond r.clock) (checkpointOf (polled since) s)
        (firstWindow (polled since) s (wholeSecond r.clock)) r.attempts).2 with
    | none =>
        refine shortened_sound h fun known hknown => ?_
        obtain ⟨hleast, hmost⟩ := hsaved known hknown
        refine ⟨hleast, hmost.trans (max_le ?_ hnow)⟩
        unfold MAX_TIME
        omega
    | some answered =>
        obtain ⟨hwindow, answer, hin, heq⟩ := hanswered answered hresult
        dsimp only
        rw [heq]
        obtain ⟨hstored, hmoves⟩ := stored_reached hdigest h hnow (Nat.not_lt.mp hbehind) hwindow
          (hanswers answer hin)
        exact ⟨hstored, fun previous hprevious => ⟨_, rfl, hmoves previous hprevious⟩⟩

theorem collects_sound {runs : List (Run δ)}
    (hdigest : ∀ a ∈ log, ∀ b ∈ log, a.digest = b.digest → a = b) (h : Sound log since answered s)
    (hanswers : ∀ r ∈ runs, ∀ answer, some answer ∈ r.attempts → Answers log answer) :
    Sound log since ((lastAnswered (polled since) s runs).or answered)
        (runs.foldl (collectHostedNativeLogs (polled since)) s) ∧
      ∀ previous, s.checkpoint = some previous → ∃ checkpoint,
        (runs.foldl (collectHostedNativeLogs (polled since)) s).checkpoint = some checkpoint ∧
          previous.untilMs ≤ checkpoint.untilMs := by
  induction runs generalizing s answered with
  | nil => exact ⟨h, fun previous hprevious => ⟨previous, hprevious, Nat.le_refl _⟩⟩
  | cons r runs ih =>
      obtain ⟨hfirst, hmoves⟩ := collect_sound hdigest h (hanswers r List.mem_cons_self)
      obtain ⟨hsound, hlater⟩ :=
        ih hfirst fun other hother => hanswers other (List.mem_cons_of_mem r hother)
      rw [lastAnswered, Option.or_assoc]
      refine ⟨hsound, fun previous hprevious => ?_⟩
      obtain ⟨middle, hmiddle, hle⟩ := hmoves previous hprevious
      obtain ⟨checkpoint, hcheckpoint, hle'⟩ := hlater middle hmiddle
      exact ⟨checkpoint, hcheckpoint, hle.trans hle'⟩

/-- Over any runs, with any readings of the clock and any queries that fail, what is appended is
every line from the beginning to the end of the last window that was answered, as often as the log
has it; that end is the checkpoint, or a second after it when the checkpoint is the second of the
run that had the answer, and the checkpoint never moves back. -/
theorem collected_once {log : List (Event δ)} {since : Nat} {runs more : List (Run δ)}
    (hdigest : ∀ a ∈ log, ∀ b ∈ log, a.digest = b.digest → a = b)
    (hanswers : ∀ r ∈ runs ++ more, ∀ answer, some answer ∈ r.attempts → Answers log answer) :
    let s := runs.foldl (collectHostedNativeLogs (polled since)) nothing
    let t := more.foldl (collectHostedNativeLogs (polled since)) s
    (s.checkpoint = none → s.device = []) ∧
      ∀ checkpoint, s.checkpoint = some checkpoint →
        (∃ now, lastAnswered (polled since) nothing runs = some now ∧ s.stop =
          if checkpoint.untilMs = now then checkpoint.untilMs + 1000 else checkpoint.untilMs) ∧
        (∃ lines : List (Event δ), s.device = lines.map .line ∧
          lines.Perm (log.filter (within (wholeSecond since) s.stop))) ∧
        ∃ later, t.checkpoint = some later ∧ checkpoint.untilMs ≤ later.untilMs := by
  have hfirst := (collects_sound (s := nothing) hdigest (sound_nothing log since) fun r hr =>
    hanswers r (List.mem_append_left more hr)).1
  have hlater := (collects_sound hdigest hfirst fun r hr =>
    hanswers r (List.mem_append_right runs hr)).2
  refine ⟨hfirst.empty, fun checkpoint hsome => ?_⟩
  obtain ⟨now, hanswered, hreached⟩ := hfirst.reached checkpoint hsome
  rw [Option.or_none] at hanswered
  exact ⟨⟨now, hanswered, hreached.stop_eq⟩, hreached.device, hlater checkpoint hsome⟩

/-- Lines of a log, two of them the same. -/
def deviceLog : List (Event Nat) :=
  [⟨some 900, 1, "start"⟩, ⟨some 3500, 2, "tick"⟩, ⟨some 3500, 2, "tick"⟩, ⟨some 4400, 3, "load"⟩,
    ⟨some 9700, 4, "stop"⟩]

/-- A run whose queries fail so many times before one is answered. -/
def runAt (clock failures : Nat) (h : clock ≤ MAX_TIME) : Run Nat :=
  ⟨clock, List.replicate failures none ++ [some fun _ _ => deviceLog], h⟩

theorem answers_runAt {clock failures : Nat} {h : clock ≤ MAX_TIME} :
    ∀ answer, some answer ∈ (runAt clock failures h).attempts → Answers deviceLog answer := by
  intro answer hmem
  obtain hfailed | hlast := List.mem_append.mp hmem
  · cases List.eq_of_mem_replicate hfailed
  · cases List.mem_singleton.mp hlast
    exact fun _ _ => List.Perm.refl _

/-- The clock goes back once, and the second window is shortened. -/
def fourRuns : List (Run Nat) :=
  [runAt 4200 0 (by decide), runAt 9800 1 (by decide), runAt 5500 0 (by decide),
    runAt 9900 0 (by decide)]

theorem answers_fourRuns : ∀ r ∈ fourRuns ++ [], ∀ answer, some answer ∈ r.attempts →
    Answers deviceLog answer := by
  intro r hr
  simp only [fourRuns, List.append_nil, List.mem_cons, List.not_mem_nil, or_false] at hr
  obtain rfl | rfl | rfl | rfl := hr <;> exact answers_runAt

theorem collected_once_fourRuns :
    (fourRuns.foldl (collectHostedNativeLogs (polled 0)) nothing).device.length = 5 ∧
      ∃ lines : List (Event Nat),
        (fourRuns.foldl (collectHostedNativeLogs (polled 0)) nothing).device = lines.map .line ∧
          lines.Perm (deviceLog.filter (within (wholeSecond 0)
            (fourRuns.foldl (collectHostedNativeLogs (polled 0)) nothing).stop)) := by
  have hdigest : ∀ a ∈ deviceLog, ∀ b ∈ deviceLog, a.digest = b.digest → a = b := by
    decide +kernel
  have h := (@collected_once _ _ deviceLog 0 fourRuns [] hdigest answers_fourRuns).2
    ⟨9000, [3, 4], none⟩ (by decide +kernel)
  exact ⟨by decide +kernel, h.2.1⟩

/-- A line within a second after the checkpoint. -/
theorem not_collected_to_checkpoint : ¬ ∀ (log : List (Event Nat)) (since : Nat)
    (runs : List (Run Nat)), (∀ a ∈ log, ∀ b ∈ log, a.digest = b.digest → a = b) →
    (∀ r ∈ runs, ∀ answer, some answer ∈ r.attempts → Answers log answer) →
    ∀ checkpoint,
      (runs.foldl (collectHostedNativeLogs (polled since)) nothing).checkpoint = some checkpoint →
      ∃ lines : List (Event Nat),
        (runs.foldl (collectHostedNativeLogs (polled since)) nothing).device = lines.map .line ∧
          lines.Perm (log.filter (within (wholeSecond since) checkpoint.untilMs)) := by
  intro h
  obtain ⟨lines, hdevice, hlines⟩ := h deviceLog 0 [runAt 4200 0 (by decide)] (by decide +kernel)
    (fun r hr => by cases List.mem_singleton.mp hr; exact answers_runAt) ⟨4000, [1, 2, 2, 3], none⟩
    (by decide +kernel)
  have hlength := congrArg List.length hdevice
  rw [List.length_map, hlines.length_eq] at hlength
  exact absurd hlength (by decide +kernel)

end Stim.NativeLogs
