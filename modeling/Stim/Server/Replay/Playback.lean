import Stim.Server.Replay.Shot

/-!
# Playback over a run

In every run of a recorder and a player, the units sent since a seek are a run of the recorded
ones from a keyframe, playback ends at the newest one, and a callback of an earlier seek or of a
stopped player sends nothing.  Every seek shows the right frame in the runs whose seeks are at
clear times.
-/

namespace Stim.Server

theorem footageOf_listSegments {r : DeviceRecording} (h : r.WellFormed) :
    footageOf (listSegments r.dir) = r.footage := by
  have hstarts : r.dir.Pairwise fun a b => a.start ≤ b.start :=
    (List.pairwise_map.mp h.sound.starts).imp fun hlt => hlt.1.le
  rw [listSegments, hstarts.insertionSort_eq, DeviceRecording.footage, Contents.footage,
    DeviceRecording.contents, List.map_map]
  rfl

/-- A segment of footage that grows keeps its place, and its units. -/
theorem Footage.Grows.split {before after front back : Footage} {start : Nat}
    {units : List AccessUnit} (h : before.Grows after)
    (hsplit : before = front ++ (start, units) :: back) :
    ∃ (units' : List AccessUnit) (back' : Footage),
      after = front ++ (start, units') :: back' ∧ units <+: units' := by
  cases h with
  | same => exact ⟨units, back, hsplit, List.prefix_rfl⟩
  | segment _ start' =>
      exact ⟨units, back ++ [(start', [])], by rw [hsplit]; simp, List.prefix_rfl⟩
  | unit front' start' units' unit =>
      rcases List.eq_nil_or_concat back with rfl | ⟨back, last, rfl⟩
      · -- the newest segment is the one that grows
        obtain ⟨rfl, hlast⟩ := List.append_inj' hsplit rfl
        cases hlast
        exact ⟨_, [], rfl, List.prefix_append _ _⟩
      · rw [List.concat_eq_append, ← List.cons_append, ← List.append_assoc] at hsplit
        obtain ⟨rfl, hlast⟩ := List.append_inj' hsplit rfl
        exact ⟨units, back ++ [(start', units' ++ [unit])], by simp, List.prefix_rfl⟩

namespace Replay

variable {s t : Replay} {segmentMs : Nat} {pending : Option Callback}

/-- The whole units on disk, as footage. -/
theorem recorded_eq (h : s.recording.WellFormed) : s.recorded = s.recording.footage.units := by
  rw [← footageOf_listSegments h, units_footageOf]
  rfl

/-- The player is at a unit: what was sent ends with the unit before `list[next]`. -/
def At (s : Replay) (segment : Nat) (list : List AccessUnit) (next : Nat) : Prop :=
  (∃ (front : Footage) (units : List AccessUnit) (back : Footage),
    s.recording.footage = front ++ (segment, units) :: back ∧ list <+: units ∧
      s.sent <:+ front.units ++ units.take next) ∧
    next ≤ list.length ∧ s.sent.getLast?.map AccessUnit.capturedAt = some s.player.position

/-- What an armed timer may do. -/
def Valid (s : Replay) : Callback → Prop
  | .burst _ shot _ => s.sent = [] ∧ shot.Within s.segments ∧
      ∃ seek, s.seeking = some seek ∧ seek.shot = some shot
  | .send _ segment list next => s.At segment list next ∧ next < list.length

/-- The invariant of a player, where one callback may be about to run. -/
structure Sound (s : Replay) (pending : Option Callback) : Prop where
  recording : s.recording.WellFormed
  /-- The only armed timer is the last one, of the player's generation. -/
  timers : ∀ timer callback, s.player.timers timer = some callback →
    s.player.timer = some timer ∧ callback.generation = s.player.generation ∧ s.Valid callback
  run : s.sent <:+: s.recording.footage.units
  keyframe : ∀ unit rest, s.sent = unit :: rest → unit.keyframe = true
  /-- What the last seek shows is sent, or about to be, unless the player has stopped. -/
  begun : ∀ seek shot, s.seeking = some seek → seek.shot = some shot →
    shot.slice <+: s.sent ∨ s.player.stopped = true ∨
      (∃ timer rate, s.player.timers timer = some (.burst s.player.generation shot rate)) ∨
      ∃ rate, pending = some (.burst s.player.generation shot rate)
  endings : ∀ ending ∈ s.endings, ending.last.isSome ∧ ending.last = ending.newest ∧
    ending.last.map AccessUnit.capturedAt = some ending.position
  outputs : ∀ output ∈ s.outputs, output.generation = output.current ∧ output.stopped = false

/-- Replay shows the right frame, and plays on without a gap. -/
structure Replays (s : Replay) : Prop where
  shows : ∀ seek, s.seeking = some seek → seek.Right
  run : s.sent <:+: s.recorded
  keyframe : ∀ unit rest, s.sent = unit :: rest → unit.keyframe = true
  begun : ∀ seek shot, s.seeking = some seek → seek.shot = some shot →
    shot.slice <+: s.sent ∨ s.player.stopped = true ∨
      ∃ timer rate, s.player.timers timer = some (.burst s.player.generation shot rate)
  endings : ∀ ending ∈ s.endings, ending.last.isSome ∧ ending.last = ending.newest ∧
    ending.last.map AccessUnit.capturedAt = some ending.position
  outputs : ∀ output ∈ s.outputs, output.generation = output.current ∧ output.stopped = false

theorem ordered (h : s.recording.WellFormed) : (footageOf s.segments).Ordered := by
  rw [segments, footageOf_listSegments h]
  exact h.sound.ordered

theorem sound_init : init.Sound none where
  recording := DeviceRecording.wellFormed_init
  timers := nofun
  run := List.nil_infix
  keyframe := nofun
  begun := nofun
  endings := nofun
  outputs := nofun

variable {callback : Callback}

/-- A timer is armed where none was. -/
theorem Sound.setTimeout (h : s.Sound pending) (hnone : ∀ timer, s.player.timers timer = none)
    (hgeneration : callback.generation = s.player.generation) (hvalid : s.Valid callback)
    (hpending : pending = none ∨ pending = some callback) : (s.setTimeout callback).Sound none where
  recording := h.recording
  timers timer other harmed := by
    by_cases htimer : timer = s.player.nextTimer
    · subst htimer
      have hsame : callback = other := by simpa [Replay.setTimeout] using harmed
      subst hsame
      exact ⟨rfl, hgeneration, by cases callback <;> exact hvalid⟩
    · simp [Replay.setTimeout, htimer, hnone] at harmed
  run := h.run
  keyframe := h.keyframe
  begun seek shot hseek hshot := by
    rcases h.begun seek shot hseek hshot with hsent | hstopped | ⟨timer, rate, harmed⟩ |
      ⟨rate, hburst⟩
    · exact .inl hsent
    · exact .inr (.inl hstopped)
    · rw [hnone] at harmed
      cases harmed
    · refine .inr (.inr (.inl ⟨s.player.nextTimer, rate, ?_⟩))
      rcases hpending with rfl | rfl
      · cases hburst
      · cases hburst
        exact Function.update_self _ _ _
  endings := h.endings
  outputs := h.outputs

/-- Playback goes on from the unit that it is at. -/
theorem Sound.play (h : s.Sound none) (hnone : ∀ timer, s.player.timers timer = none)
    {generation segment : Nat} {list : List AccessUnit} {next : Nat}
    (hat : s.At segment list next) : (s.play generation segment list next).Sound none := by
  unfold Replay.play
  split_ifs with hlive
  · exact h
  have hgeneration : generation = s.player.generation := by
    simp only [live, Bool.not_eq_true', Bool.not_eq_false, Bool.and_eq_true,
      decide_eq_true_eq] at hlive
    exact hlive.1
  obtain ⟨⟨front, units, back, hfootage, hlist, hsent⟩, hnext, hlast⟩ := hat
  have hsegments : footageOf s.segments = s.recording.footage :=
    footageOf_listSegments h.recording
  have hfuel : back.length < s.segments.length + 1 := by
    have := congrArg List.length (hsegments.trans hfootage)
    simp [footageOf] at this
    omega
  obtain ⟨result, hresult, hfollows⟩ := advance_follows (ordered h.recording)
    (hsegments.trans hfootage) hfuel hlist hnext
  rw [hresult]
  cases result with
  | ended =>
      -- everything on disk was sent, as far as the run goes
      have hall : s.recorded = front.units ++ units.take next := hfollows
      obtain ⟨last, hlastSent, hposition⟩ := Option.map_eq_some_iff.mp hlast
      obtain ⟨before, hbefore⟩ := hsent
      have hne : s.sent ≠ [] := by
        intro hnil
        rw [hnil] at hlastSent
        cases hlastSent
      have hnewest : s.recorded.getLast? = s.sent.getLast? := by
        rw [hall, ← hbefore, List.getLast?_append_of_ne_nil _ hne]
      refine ⟨h.recording, h.timers, h.run, h.keyframe, h.begun, ?_, h.outputs⟩
      intro ending hmem
      rcases List.mem_append.mp hmem with hold | hnew
      · exact h.endings ending hold
      · obtain rfl := List.mem_singleton.mp hnew
        exact ⟨by rw [hlastSent]; rfl, hnewest.symm, hlast⟩
  | plays segment' list' next' =>
      obtain ⟨front', units', back', hfootage', hlist', hnext', hunits⟩ := hfollows
      have hat' : s.At segment' list' next' := by
        refine ⟨⟨front', units', back', hsegments ▸ hfootage', hlist', ?_⟩, hnext'.le, hlast⟩
        rw [hunits]
        exact hsent
      exact h.setTimeout hnone hgeneration ⟨hat', hnext'⟩ (.inl rfl)

/-- Units are sent by a callback that still has a say. -/
theorem Sound.output (h : s.Sound pending) (hnone : ∀ timer, s.player.timers timer = none)
    {generation : Nat} (hlive : s.live generation = true) {units : List AccessUnit} (position : Nat)
    (hrun : s.sent ++ units <:+: s.recording.footage.units)
    (hkeyframe : ∀ unit rest, s.sent ++ units = unit :: rest → unit.keyframe = true)
    (hbegun : ∀ seek shot, s.seeking = some seek → seek.shot = some shot →
      shot.slice <+: s.sent ++ units) :
    ((s.output generation units).setPosition position).Sound none where
  recording := h.recording
  timers timer callback harmed := by
    rw [show ((s.output generation units).setPosition position).player.timers timer =
      s.player.timers timer from rfl, hnone] at harmed
    cases harmed
  run := hrun
  keyframe := hkeyframe
  begun seek shot hseek hshot := .inl (hbegun seek shot hseek hshot)
  endings := h.endings
  outputs output hmem := by
    simp only [live, Bool.and_eq_true, decide_eq_true_eq, Bool.not_eq_true'] at hlive
    rcases List.mem_append.mp hmem with hold | hnew
    · exact h.outputs output hold
    · obtain ⟨unit, -, rfl⟩ := List.mem_map.mp hnew
      exact hlive

theorem infix_of_split {footage front back : Footage} {segment next : Nat}
    {units sent : List AccessUnit} (hfootage : footage = front ++ (segment, units) :: back)
    (hsent : sent <:+ front.units ++ units.take next) : sent <:+: footage.units := by
  have hprefix : front.units ++ units.take next <+: footage.units := by
    refine ⟨units.drop next ++ Footage.units back, ?_⟩
    rw [List.append_assoc, ← List.append_assoc (units.take next), List.take_append_drop, hfootage]
    simp [Footage.units]
  exact hsent.isInfix.trans hprefix.isInfix

/-- The next unit of a list that is a segment's so far. -/
theorem take_succ_of_isInit {list units : List AccessUnit} (h : list <+: units) {next : Nat}
    {unit : AccessUnit} (hunit : list[next]? = some unit) :
    units.take (next + 1) = units.take next ++ [unit] := by
  obtain ⟨more, rfl⟩ := h
  obtain ⟨hlt, -⟩ := List.getElem?_eq_some_iff.mp hunit
  have hget : (list ++ more)[next]? = some unit := by
    rw [List.getElem?_append_left hlt]
    exact hunit
  rw [List.take_add_one, hget]
  rfl

/-- Runs a callback of the player's generation. -/
theorem Sound.call (h : s.Sound (some callback)) (hnone : ∀ timer, s.player.timers timer = none)
    (hgeneration : callback.generation = s.player.generation) (hvalid : s.Valid callback)
    (congested : Bool) : (s.call callback congested).Sound none := by
  unfold Replay.call
  split_ifs with hdead
  · -- only a player that has stopped has no say here
    have hstopped : s.player.stopped = true := by
      simpa [live, hgeneration] using hdead
    exact ⟨h.recording, h.timers, h.run, h.keyframe, fun _ _ _ _ => .inr (.inl hstopped), h.endings,
      h.outputs⟩
  · exact h.setTimeout hnone hgeneration hvalid (.inr rfl)
  · have hlive : s.live callback.generation = true := by simpa using hdead
    cases callback with
    | burst generation shot rate =>
        obtain ⟨hnil, hwithin, seek, hseek, hshot⟩ := hvalid
        obtain ⟨front, units, back, hfootage, hprefix⟩ := hwithin.split
        obtain ⟨unit, rest, hslice, hkeyframe⟩ := hwithin.keyframe
        rw [segments, footageOf_listSegments h.recording] at hfootage
        have htake : units.take shot.next = shot.units.take shot.next := by
          obtain ⟨more, rfl⟩ := hprefix
          exact List.take_append_of_le_length hwithin.next
        have hsuffix : s.sent ++ shot.slice <:+ front.units ++ units.take shot.next := by
          rw [hnil, htake]
          exact (List.drop_suffix _ _).trans (List.suffix_append _ _)
        have houtput : ((s.output generation shot.slice).setPosition
            (shot.shown.getD 0)).Sound none := by
          refine h.output hnone hlive _ (infix_of_split hfootage hsuffix) ?_ ?_
          · intro first more hcons
            rw [hnil, List.nil_append, hslice] at hcons
            cases hcons
            exact hkeyframe
          · intro seek' shot' hseek' hshot'
            rw [hseek] at hseek'
            cases hseek'
            rw [hshot] at hshot'
            cases hshot'
            rw [hnil]
            exact List.prefix_rfl
        dsimp only
        split_ifs
        · refine houtput.play hnone ⟨⟨front, units, back, hfootage, hprefix, hsuffix⟩,
            hwithin.next, ?_⟩
          show (s.sent ++ shot.slice).getLast?.map _ = some (shot.shown.getD 0)
          obtain ⟨last, hlast⟩ : ∃ last, shot.slice.getLast? = some last := by
            rw [hslice]
            exact ⟨_, List.getLast?_eq_some_getLast (List.cons_ne_nil _ _)⟩
          rw [hnil, List.nil_append, Shot.shown, hlast]
          rfl
        · exact houtput
    | send generation segment list next =>
        obtain ⟨⟨⟨front, units, back, hfootage, hprefix, hsent⟩, -, hlast⟩, hlt⟩ := hvalid
        obtain ⟨unit, hunit⟩ : ∃ unit, list[next]? = some unit :=
          ⟨_, List.getElem?_eq_getElem hlt⟩
        have hsuffix : s.sent ++ [unit] <:+ front.units ++ units.take (next + 1) := by
          rw [take_succ_of_isInit hprefix hunit, ← List.append_assoc]
          obtain ⟨before, hbefore⟩ := hsent
          exact ⟨before, by rw [← hbefore, List.append_assoc]⟩
        obtain ⟨first, more, hcons⟩ : ∃ first more, s.sent = first :: more := by
          cases hsome : s.sent with
          | nil =>
              rw [hsome] at hlast
              cases hlast
          | cons first more => exact ⟨first, more, rfl⟩
        have houtput : ((s.output generation [unit]).setPosition unit.capturedAt).Sound none := by
          refine h.output hnone hlive _ (infix_of_split hfootage hsuffix) ?_ ?_
          · intro first' more' hcons'
            rw [hcons, List.cons_append] at hcons'
            cases hcons'
            exact h.keyframe first more hcons
          · intro seek shot hseek hshot
            rcases h.begun seek shot hseek hshot with hsent | hstopped | ⟨timer, rate, harmed⟩ |
              ⟨rate, hburst⟩
            · exact hsent.trans (List.prefix_append _ _)
            · simp [live, hstopped] at hlive
            · rw [hnone] at harmed
              cases harmed
            · cases hburst
        dsimp only
        rw [hunit]
        refine houtput.play hnone ⟨⟨front, units, back, hfootage, hprefix, hsuffix⟩, hlt, ?_⟩
        show (s.sent ++ [unit]).getLast?.map _ = some unit.capturedAt
        rw [List.getLast?_concat]
        rfl

/-! ## Steps and runs -/

/-- Cancelling leaves no timer armed. -/
theorem Sound.cancel_timers (h : s.Sound pending) (timer : Nat) :
    s.cancel.player.timers timer = none := by
  cases harmed : s.player.timers timer with
  | none =>
      simp only [Replay.cancel]
      cases s.player.timer with
      | none => exact harmed
      | some last =>
          by_cases hlast : timer = last
          · rw [hlast]
            exact Function.update_self _ _ _
          · exact (Function.update_of_ne hlast _ _).trans harmed
  | some callback =>
      obtain ⟨hlast, -⟩ := h.timers timer callback harmed
      simp only [Replay.cancel]
      rw [hlast]
      exact Function.update_self _ _ _

theorem Sound.seek (h : s.Sound none) (time rate : ℚ) (congested : Bool) :
    (s.seek time rate congested).Sound none := by
  have hnone : ∀ timer, (s.renew rate ⟨time, s.segments,
      shotAt s.segments time⟩).player.timers timer = none := h.cancel_timers
  have hrenewed : ∀ pending : Option Callback, (∀ shot, shotAt s.segments time = some shot →
      ∃ rate', pending = some (.burst (s.player.generation + 2) shot rate')) →
      (s.renew rate ⟨time, s.segments, shotAt s.segments time⟩).Sound pending := by
    intro pending hpending
    refine ⟨h.recording, ?_, List.nil_infix, nofun, ?_, h.endings, h.outputs⟩
    · intro timer callback harmed
      rw [hnone] at harmed
      cases harmed
    · intro seek shot hseek hshot
      cases hseek
      exact .inr (.inr (.inr (hpending shot hshot)))
  unfold Replay.seek
  dsimp only
  rw [show (s.renew rate ⟨time, s.segments, shotAt s.segments time⟩).segments = s.segments from rfl]
  cases hshot : shotAt s.segments time with
  | none =>
      have hsound := hrenewed none fun shot hsome => by rw [hshot] at hsome; cases hsome
      rwa [hshot] at hsound
  | some shot =>
      have hsound := hrenewed (some (.burst (s.player.generation + 2) shot rate)) fun other hsome =>
        ⟨rate, by rw [hshot] at hsome; cases hsome; rfl⟩
      rw [hshot] at hsound hnone
      have hplaced : ((s.renew rate ⟨time, s.segments, some shot⟩).setPosition
          (shot.shown.getD 0)).Sound (some (.burst (s.player.generation + 2) shot rate)) := by
        refine ⟨hsound.recording, ?_, hsound.run, hsound.keyframe, hsound.begun, hsound.endings,
          hsound.outputs⟩
        intro timer callback harmed
        have := hnone timer
        rw [show (s.renew rate ⟨time, s.segments, some shot⟩).player.timers timer = some callback
          from harmed] at this
        cases this
      exact hplaced.call hnone rfl ⟨rfl, shotAt_within hshot, _, rfl, rfl⟩ congested

theorem Sound.fire (h : s.Sound none) {timer : Nat}
    (harmed : s.player.timers timer = some callback) (congested : Bool) :
    ((s.disarm timer).call callback congested).Sound none := by
  obtain ⟨hlast, hgeneration, hvalid⟩ := h.timers timer callback harmed
  have hnone : ∀ other, (s.disarm timer).player.timers other = none := by
    intro other
    by_cases hother : other = timer
    · rw [hother]
      exact Function.update_self _ _ _
    · show Function.update s.player.timers timer none other = none
      rw [Function.update_of_ne hother]
      cases hsome : s.player.timers other with
      | none => rfl
      | some callback' =>
          obtain ⟨hlast', -⟩ := h.timers other callback' hsome
          rw [hlast] at hlast'
          exact absurd (Option.some.inj hlast').symm hother
  have hfired : (s.disarm timer).Sound (some callback) := by
    refine ⟨h.recording, ?_, h.run, h.keyframe, ?_, h.endings, h.outputs⟩
    · intro other callback' hsome
      rw [hnone] at hsome
      cases hsome
    · intro seek shot hseek hshot
      rcases h.begun seek shot hseek hshot with hsent | hstopped | ⟨other, rate, hburst⟩ |
        ⟨rate, hno⟩
      · exact .inl hsent
      · exact .inr (.inl hstopped)
      · obtain ⟨hlast', -⟩ := h.timers other _ hburst
        rw [hlast] at hlast'
        cases hlast'
        rw [harmed] at hburst
        exact .inr (.inr (.inr ⟨rate, hburst⟩))
      · cases hno
  exact hfired.call hnone hgeneration (by cases callback <;> exact hvalid) congested

theorem Sound.stop (h : s.Sound none) : s.stop.Sound none := by
  have hnone := h.cancel_timers
  refine ⟨h.recording, ?_, h.run, h.keyframe, fun _ _ _ _ => .inr (.inl rfl), h.endings, h.outputs⟩
  intro timer callback harmed
  have := hnone timer
  rw [show s.cancel.player.timers timer = some callback from harmed] at this
  cases this

/-- A step of the recorder leaves playback as it is. -/
theorem Sound.record (h : s.Sound none) {recording : DeviceRecording}
    (hrecording : recording.WellFormed) (hgrows : s.recording.footage.Grows recording.footage) :
    Sound { s with recording } none := by
  have hrun : s.sent <:+: recording.footage.units := h.run.trans hgrows.units.isInfix
  refine ⟨hrecording, ?_, hrun, h.keyframe, h.begun, h.endings, h.outputs⟩
  intro timer callback harmed
  obtain ⟨hlast, hgeneration, hvalid⟩ := h.timers timer callback harmed
  refine ⟨hlast, hgeneration, ?_⟩
  cases callback with
  | burst generation shot rate =>
      obtain ⟨hnil, ⟨⟨front, units, back, hfootage, hprefix⟩, hnext, hkeyframe⟩, hseek⟩ := hvalid
      rw [segments, footageOf_listSegments h.recording] at hfootage
      obtain ⟨units', back', hafter, hunits⟩ := hgrows.split hfootage
      refine ⟨hnil, ⟨⟨front, units', back', ?_, hprefix.trans hunits⟩, hnext, hkeyframe⟩, hseek⟩
      rw [segments, footageOf_listSegments hrecording]
      exact hafter
  | send generation segment list next =>
      obtain ⟨⟨⟨front, units, back, hfootage, hprefix, hsent⟩, hnext, hposition⟩, hlt⟩ := hvalid
      obtain ⟨units', back', hafter, more, rfl⟩ := hgrows.split hfootage
      refine ⟨⟨⟨front, _, back', hafter, hprefix.trans (List.prefix_append _ _), ?_⟩, hnext,
        hposition⟩, hlt⟩
      rw [List.take_append_of_le_length (hnext.trans hprefix.length_le)]
      exact hsent

/-- A seek is at a clear time. -/
def Clear (s : Replay) : Action → Prop
  | .seek time _ _ => ClearAt s.segments time
  | .resend _ => s.player.position ≠ 0 → ClearAt s.segments s.player.position
  | _ => True

theorem play_seeking (generation segment : Nat) (list : List AccessUnit) (next : Nat) :
    (s.play generation segment list next).seeking = s.seeking := by
  unfold play
  split_ifs
  · rfl
  · cases advance (s.segments.length + 1) s.segments segment list next with
    | none => rfl
    | some result => cases result <;> rfl

/-- Only a seek changes which seek is the last. -/
theorem call_seeking (callback : Callback) (congested : Bool) :
    (s.call callback congested).seeking = s.seeking := by
  unfold call
  split_ifs
  · rfl
  · rfl
  · cases callback with
    | burst generation shot rate =>
        dsimp only
        split_ifs
        · exact play_seeking _ _ _ _
        · rfl
    | send generation segment list next =>
        dsimp only
        cases list[next]? with
        | none => rfl
        | some unit => exact play_seeking _ _ _ _

theorem seek_seeking (time rate : ℚ) (congested : Bool) :
    (s.seek time rate congested).seeking =
      some ⟨time, s.segments, shotAt s.segments time⟩ := by
  unfold seek
  dsimp only
  split
  · rfl
  · exact call_seeking _ _

theorem seek_right (h : s.Sound none) {time rate : ℚ} {congested : Bool}
    (hclear : ClearAt s.segments time) :
    ∀ seek, (s.seek time rate congested).seeking = some seek → seek.Right := by
  intro seek hseek
  rw [seek_seeking] at hseek
  cases hseek
  exact right_of_clear (ordered h.recording) hclear

theorem step_sound {action : Action} (h : s.Sound none)
    (hstep : step segmentMs s action = some t) : t.Sound none := by
  cases action with
  | record action =>
      obtain ⟨recording, hrecording, rfl⟩ := Option.map_eq_some_iff.mp hstep
      obtain ⟨hwell, hgrows⟩ := DeviceRecording.step_wellFormed h.recording hrecording
      exact h.record hwell hgrows
  | seek time rate congested =>
      cases hstep
      exact h.seek time rate congested
  | resend congested =>
      cases hstep
      unfold resend
      split_ifs
      · exact h
      · exact h.seek _ _ congested
  | stop =>
      cases hstep
      exact h.stop
  | fire timer congested =>
      simp only [step] at hstep
      cases harmed : s.player.timers timer with
      | none => simp [harmed] at hstep
      | some callback =>
          rw [harmed] at hstep
          cases hstep
          exact h.fire harmed congested

theorem step_right {action : Action} (h : s.Sound none)
    (hright : ∀ seek, s.seeking = some seek → seek.Right) (hclear : s.Clear action)
    (hstep : step segmentMs s action = some t) : ∀ seek, t.seeking = some seek → seek.Right := by
  cases action with
  | record action =>
      obtain ⟨recording, -, rfl⟩ := Option.map_eq_some_iff.mp hstep
      exact hright
  | seek time rate congested =>
      cases hstep
      exact seek_right h hclear
  | resend congested =>
      cases hstep
      unfold resend
      split_ifs with hposition
      · exact hright
      · exact seek_right h (hclear hposition)
  | stop =>
      cases hstep
      exact hright
  | fire timer congested =>
      simp only [step] at hstep
      cases harmed : s.player.timers timer with
      | none => simp [harmed] at hstep
      | some callback =>
          rw [harmed] at hstep
          cases hstep
          rw [call_seeking]
          exact hright

theorem Sound.replays (h : s.Sound none) (hright : ∀ seek, s.seeking = some seek → seek.Right) :
    s.Replays where
  shows := hright
  run := recorded_eq h.recording ▸ h.run
  keyframe := h.keyframe
  begun seek shot hseek hshot := by
    rcases h.begun seek shot hseek hshot with hsent | hstopped | harmed | ⟨rate, hno⟩
    · exact .inl hsent
    · exact .inr (.inl hstopped)
    · exact .inr (.inr harmed)
    · cases hno
  endings := h.endings
  outputs := h.outputs

/-- Replay shows the right frames and plays on without a gap in every run whose seeks are at
clear times. -/
theorem replays_of_clear (segmentMs : Nat) (actions : List Action)
    (hrun : Machine.run (step segmentMs) init actions = some s)
    (hclear : Machine.Meets (step segmentMs) Clear init actions) : s.Replays := by
  have hsound : s.Sound none ∧ ∀ seek, s.seeking = some seek → seek.Right :=
    Machine.invariant_run_meets (P := fun s => s.Sound none ∧ ∀ seek, s.seeking = some seek →
        seek.Right)
      (fun _ _ _ h hclear hstep => ⟨step_sound h.1 hstep, step_right h.1 h.2 hclear hstep⟩)
      ⟨sound_init, nofun⟩ hrun hclear
  exact hsound.1.replays hsound.2

instance (s : Replay) (action : Action) : Decidable (s.Clear action) :=
  match action with
  | .seek time _ _ => inferInstanceAs (Decidable (ClearAt s.segments time))
  | .resend _ => inferInstanceAs (Decidable (_ → ClearAt s.segments _))
  | .record _ | .stop | .fire _ _ => isTrue trivial

def sampleUnit (keyframe : Bool) (capturedAt : Nat) : AccessUnit :=
  ⟨keyframe, capturedAt, 2, 2, none, [1]⟩

/-- A unit is recorded, in two pieces. -/
def recordUnit (unit : AccessUnit) : List Action :=
  [.record (.write unit ⟨true, true, true, unit.capturedAt⟩), .record (.flush 7 unit.capturedAt),
    .record (.flush 11 unit.capturedAt)]

/-- A second segment starts at 7000, where the first one ends. -/
def twoSegments : List Action :=
  recordUnit (sampleUnit true 1000) ++ recordUnit (sampleUnit false 1500) ++
    recordUnit (sampleUnit true 7000)

/-- A player that plays through both segments. -/
def playThrough : List Action :=
  twoSegments ++ [.seek 1200 1 false, .fire 0 true, .fire 1 false, .fire 2 false]

theorem replays_of_clear_playThrough :
    ∃ s, Machine.run (step 5000) init playThrough = some s ∧ s.Replays ∧
      s.sent = [sampleUnit true 1000, sampleUnit false 1500, sampleUnit true 7000] ∧
      s.endings.map Ending.position = [7000] := by
  obtain ⟨s, hrun⟩ : ∃ s, Machine.run (step 5000) init playThrough = some s := ⟨_, rfl⟩
  refine ⟨s, hrun, replays_of_clear 5000 playThrough hrun (by decide +kernel), ?_⟩
  cases hrun
  decide +kernel

/-- A seek to the keyframe that starts the second segment shows the frame before it. -/
theorem not_replays_boundary :
    ∃ s, Machine.run (step 5000) init (twoSegments ++ [.seek 7000 0 false]) = some s ∧
      ¬ s.Replays ∧ s.sent = [sampleUnit true 1000, sampleUnit false 1500] := by
  refine ⟨_, rfl, ?_, by decide +kernel⟩
  intro hreplays
  obtain ⟨shot, hshot, -, hshown⟩ := hreplays.shows _ rfl (by decide +kernel) (by decide +kernel)
  revert hshown
  cases hshot
  decide +kernel

/-- In every state a seek to a time would show the right frame exactly if the time is clear. -/
theorem seek_right_iff (segmentMs : Nat) {actions : List Action}
    (hrun : Machine.run (step segmentMs) init actions = some s) (time : ℚ) :
    (Seek.mk time s.segments (shotAt s.segments time)).Right ↔ ClearAt s.segments time := by
  have hsound : s.Sound none :=
    Machine.invariant_run (P := fun s => s.Sound none) (fun _ _ _ => step_sound) sound_init hrun
  exact right_iff_clear (ordered hsound.recording) time

theorem seek_right_iff_twoSegments :
    ∃ s, Machine.run (step 5000) init twoSegments = some s ∧
      (Seek.mk 1200 s.segments (shotAt s.segments 1200)).Right := by
  obtain ⟨s, hrun⟩ : ∃ s, Machine.run (step 5000) init twoSegments = some s := ⟨_, rfl⟩
  refine ⟨s, hrun, (seek_right_iff 5000 hrun 1200).mpr ?_⟩
  cases hrun
  decide +kernel

end Replay

end Stim.Server
