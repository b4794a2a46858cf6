import Stim.Server.Recording
import Stim.Lib.Machine

/-!
# What a recording's directory holds

The segments of a recording start at a keyframe and hold ascending units, a later one later units.
A step of the recorder leaves what a reader finds as it is, adds one unit to the newest segment,
or adds a segment.
-/

namespace Stim.Server

/-- The segments of a directory, each with its start and the units that are read of it. -/
abbrev Footage := List (Nat × List AccessUnit)

/-- All units of footage. -/
def Footage.units (footage : Footage) : List AccessUnit := footage.flatMap Prod.snd

/-- Segments in capture order, each from a keyframe at its start. -/
structure Footage.Ordered (footage : Footage) : Prop where
  starts : footage.Pairwise fun a b => a.1 < b.1 ∧ ∀ unit ∈ a.2, unit.capturedAt < b.1
  ascending : ∀ segment ∈ footage, segment.2.Pairwise fun a b => a.capturedAt < b.capturedAt
  head : ∀ segment ∈ footage, ∀ unit rest, segment.2 = unit :: rest →
    unit.keyframe = true ∧ unit.capturedAt = segment.1

/-- How footage grows. -/
inductive Footage.Grows : Footage → Footage → Prop
  | same (footage : Footage) : Grows footage footage
  | unit (front : Footage) (start : Nat) (units : List AccessUnit) (unit : AccessUnit) :
      Grows (front ++ [(start, units)]) (front ++ [(start, units ++ [unit])])
  | segment (footage : Footage) (start : Nat) : Grows footage (footage ++ [(start, [])])

theorem Footage.Grows.units {before after : Footage} (h : Grows before after) :
    before.units <+: after.units := by
  cases h with
  | same => exact List.prefix_rfl
  | unit front start units unit => exact ⟨[unit], by simp [Footage.units]⟩
  | segment => simp [Footage.units]

/-- The bytes of a segment: whole records, and part of one. -/
structure Holds (start : Nat) (bytes : List UInt8) (units : List AccessUnit)
    (part : List UInt8) : Prop where
  bytes : bytes = units.flatMap recordBytes ++ part
  recordable : ∀ unit ∈ units, unit.Recordable
  part : PartOfRecord part
  ascending : units.Pairwise fun a b => a.capturedAt < b.capturedAt
  head : ∀ unit rest, units = unit :: rest → unit.keyframe = true ∧ unit.capturedAt = start

theorem Holds.read {start : Nat} {bytes part : List UInt8} {units : List AccessUnit}
    (h : Holds start bytes units part) : readUnitsFrom bytes = units := by
  rw [h.bytes]
  exact readUnitsFrom_records h.recordable h.part

/-- The start and the bytes of each file. -/
abbrev Contents := List (Nat × List UInt8)

def Contents.footage (contents : Contents) : Footage :=
  contents.map fun file => (file.1, readUnitsFrom file.2)

/-- Each file holds what a recorder wrote, and later files hold later units. -/
structure Contents.Sound (contents : Contents) (latest : Option Nat) : Prop where
  files : ∀ file ∈ contents, ∃ units part, Holds file.1 file.2 units part
  starts : contents.Pairwise fun a b =>
    a.1 < b.1 ∧ ∀ unit ∈ readUnitsFrom a.2, unit.capturedAt < b.1
  latest : ∀ file ∈ contents, ∃ time, latest = some time ∧ file.1 ≤ time ∧
    ∀ unit ∈ readUnitsFrom file.2, unit.capturedAt ≤ time

/-- The newest file is open: at the end of a record, or inside the one that is written. -/
def Contents.Open (contents : Contents) (latest : Option Nat)
    (writing : Option (List UInt8 × AccessUnit)) : Prop :=
  ∃ front start bytes units part, contents = front ++ [(start, bytes)] ∧
    Holds start bytes units part ∧
    match writing with
    | none => part = [] ∧ units ≠ []
    | some (rest, unit) => rest ≠ [] ∧ part ++ rest = recordBytes unit ∧ unit.Recordable ∧
        latest = some unit.capturedAt ∧ (∀ before ∈ units, before.capturedAt < unit.capturedAt) ∧
        (units = [] → unit.keyframe = true ∧ unit.capturedAt = start)

section Contents

variable {contents : Contents} {latest : Option Nat} {rest : List UInt8} {unit : AccessUnit}

theorem Contents.Sound.ordered (h : contents.Sound latest) : contents.footage.Ordered where
  starts := List.pairwise_map.mpr h.starts
  ascending segment hmem := by
    obtain ⟨file, hfile, rfl⟩ := List.mem_map.mp hmem
    obtain ⟨units, part, hholds⟩ := h.files file hfile
    rw [hholds.read]
    exact hholds.ascending
  head segment hmem := by
    obtain ⟨file, hfile, rfl⟩ := List.mem_map.mp hmem
    obtain ⟨units, part, hholds⟩ := h.files file hfile
    rw [hholds.read]
    exact hholds.head

/-- Time passes before the next unit. -/
theorem Contents.Sound.later (h : contents.Sound latest) {time : Nat}
    (hlater : latest.all (· < time) = true) : contents.Sound (some time) where
  files := h.files
  starts := h.starts
  latest file hfile := by
    obtain ⟨before, rfl, hstart, hunits⟩ := h.latest file hfile
    have hlt : before < time := by simpa using hlater
    exact ⟨time, rfl, by omega, fun unit hmem => by have := hunits unit hmem; omega⟩

/-- A new file starts after all that is recorded. -/
theorem Contents.Sound.newFile (h : contents.Sound latest) {time : Nat}
    (hlater : latest.all (· < time) = true) :
    Contents.Sound (contents ++ [(time, [])]) (some time) where
  files file hfile := by
    rcases List.mem_append.mp hfile with hbefore | hlast
    · exact h.files file hbefore
    · obtain rfl := List.mem_singleton.mp hlast
      exact ⟨[], [], rfl, by simp, .inl rfl, .nil, nofun⟩
  starts := by
    refine List.pairwise_append.mpr ⟨h.starts, List.pairwise_singleton _ _, ?_⟩
    intro file hfile _ hlast
    obtain rfl := List.mem_singleton.mp hlast
    obtain ⟨before, rfl, hstart, hunits⟩ := h.latest file hfile
    have hlt : before < time := by simpa using hlater
    exact ⟨by show file.1 < time; omega, fun unit hmem => by
      show unit.capturedAt < time
      have := hunits unit hmem
      omega⟩
  latest file hfile := by
    rcases List.mem_append.mp hfile with hbefore | hlast
    · exact (h.later hlater).latest file hbefore
    · obtain rfl := List.mem_singleton.mp hlast
      exact ⟨time, rfl, Nat.le_refl _, nofun⟩

/-- Bytes of the unit that is written reach the disk. -/
theorem Contents.Open.flush (hsound : contents.Sound latest)
    (hopen : contents.Open latest (some (rest, unit))) (count : Nat) :
    ∃ front start bytes, contents = front ++ [(start, bytes)] ∧
      Contents.Sound (front ++ [(start, bytes ++ rest.take count)]) latest ∧
      Contents.Open (front ++ [(start, bytes ++ rest.take count)]) latest
        (if rest.drop count = [] then none else some (rest.drop count, unit)) ∧
      contents.footage.Grows
        (Contents.footage (front ++ [(start, bytes ++ rest.take count)])) := by
  obtain ⟨front, start, bytes, units, part, rfl, hholds, hrest, hrecord, hunit, rfl, hbefore,
    hhead⟩ := hopen
  obtain ⟨time, htime, hstart, hunits⟩ := hsound.latest (start, bytes)
    (List.mem_append_right _ (List.mem_singleton.mpr rfl))
  cases htime
  refine ⟨front, start, bytes, rfl, ?_⟩
  -- what the file holds then: one more unit, or more of the record
  obtain ⟨units', part', hholds', hsub, hgrows, hopen'⟩ : ∃ units' part',
      Holds start (bytes ++ rest.take count) units' part' ∧
      (∀ other ∈ units', other ∈ units ∨ other = unit) ∧
      (units' = units ∨ units' = units ++ [unit]) ∧
      Contents.Open (front ++ [(start, bytes ++ rest.take count)]) (some unit.capturedAt)
        (if rest.drop count = [] then none else some (rest.drop count, unit)) := by
    by_cases hend : rest.drop count = []
    · have htake : rest.take count = rest := by
        have := List.take_append_drop count rest
        rwa [hend, List.append_nil] at this
      have hholds' : Holds start (bytes ++ rest.take count) (units ++ [unit]) [] := by
        refine ⟨?_, ?_, .inl rfl, ?_, ?_⟩
        · rw [htake, hholds.bytes, List.append_assoc, hrecord]
          simp
        · intro other hmem
          rcases List.mem_append.mp hmem with hold | hlast
          · exact hholds.recordable other hold
          · exact List.mem_singleton.mp hlast ▸ hunit
        · refine List.pairwise_append.mpr ⟨hholds.ascending, List.pairwise_singleton _ _, ?_⟩
          intro other hmem _ hlast
          exact List.mem_singleton.mp hlast ▸ hbefore other hmem
        · intro first more hcons
          cases units with
          | nil =>
              cases hcons
              exact hhead rfl
          | cons _ _ =>
              cases hcons
              exact hholds.head _ _ rfl
      refine ⟨units ++ [unit], [], hholds', ?_, .inr rfl, ?_⟩
      · intro other hmem
        exact (List.mem_append.mp hmem).imp id List.mem_singleton.mp
      · rw [if_pos hend]
        exact ⟨front, start, _, _, _, rfl, hholds', rfl, by simp⟩
    · have hpart : (part ++ rest.take count) ++ rest.drop count = recordBytes unit := by
        rw [List.append_assoc, List.take_append_drop, hrecord]
      have hholds' : Holds start (bytes ++ rest.take count) units (part ++ rest.take count) := by
        refine ⟨?_, hholds.recordable, .inr ⟨unit, hunit, _, hend, hpart⟩, hholds.ascending,
          hholds.head⟩
        rw [hholds.bytes, List.append_assoc]
      refine ⟨units, part ++ rest.take count, hholds', fun other => .inl, .inl rfl, ?_⟩
      rw [if_neg hend]
      exact ⟨front, start, _, _, _, rfl, hholds', hend, hpart, hunit, rfl, hbefore, hhead⟩
  have hread := hholds.read
  have hread' := hholds'.read
  refine ⟨⟨?_, ?_, ?_⟩, hopen', ?_⟩
  · intro file hfile
    rcases List.mem_append.mp hfile with hfront | hlast
    · exact hsound.files file (List.mem_append_left _ hfront)
    · obtain rfl := List.mem_singleton.mp hlast
      exact ⟨units', part', hholds'⟩
  · obtain ⟨hfront, -, hlast⟩ := List.pairwise_append.mp hsound.starts
    refine List.pairwise_append.mpr ⟨hfront, List.pairwise_singleton _ _, ?_⟩
    intro file hfile _ hmem
    obtain rfl := List.mem_singleton.mp hmem
    exact hlast file hfile (start, bytes) (List.mem_singleton.mpr rfl)
  · intro file hfile
    rcases List.mem_append.mp hfile with hfront | hlast
    · exact hsound.latest file (List.mem_append_left _ hfront)
    · obtain rfl := List.mem_singleton.mp hlast
      refine ⟨unit.capturedAt, rfl, hstart, ?_⟩
      rw [hread']
      intro other hmem
      rcases hsub other hmem with hold | rfl
      · exact hunits other (hread ▸ hold)
      · exact Nat.le_refl _
  · simp only [Contents.footage, List.map_append, List.map_cons, List.map_nil, hread, hread']
    rcases hgrows with rfl | rfl
    · exact .same _
    · exact .unit _ _ _ _

end Contents

/-! ## The recorder's steps -/

namespace DeviceRecording

def contents (r : DeviceRecording) : Contents := r.dir.map fun file => (file.start, file.bytes)

/-- What a reader finds in the directory now. -/
def footage (r : DeviceRecording) : Footage := r.contents.footage

structure WellFormed (r : DeviceRecording) : Prop where
  sound : r.contents.Sound r.latest
  opened : r.fd = true → r.contents.Open r.latest r.writing
  closed : r.fd = false → r.writing = none

variable {r t : DeviceRecording} {segmentMs : Nat}

theorem wellFormed_init : init.WellFormed := ⟨⟨nofun, .nil, nofun⟩, nofun, fun _ => rfl⟩

theorem contents_modifyNewest {dir : List SegmentFile} {change : SegmentFile → SegmentFile}
    (hstart : ∀ file, (change file).start = file.start)
    (hbytes : ∀ file, (change file).bytes = file.bytes) :
    (modifyNewest dir change).map (fun file => (file.start, file.bytes)) =
      dir.map fun file => (file.start, file.bytes) := by
  unfold modifyNewest
  cases hlast : dir.getLast? with
  | none => rfl
  | some file =>
      obtain ⟨front, rfl⟩ := List.getLast?_eq_some_iff.mp hlast
      simp [hstart, hbytes]

theorem finish_contents (ends : Nat) (renamed : Bool) :
    (r.finish ends renamed).contents = r.contents := by
  unfold finish
  split_ifs
  · rfl
  · exact contents_modifyNewest (fun _ => rfl) fun _ => rfl
  · rfl

theorem finish_frame (ends : Nat) (renamed : Bool) :
    (r.finish ends renamed).fd = false ∧ (r.finish ends renamed).writing = r.writing ∧
      (r.finish ends renamed).latest = r.latest := by
  unfold finish
  split_ifs with hclosed
  · exact ⟨by simpa using hclosed, rfl, rfl⟩
  · exact ⟨rfl, rfl, rfl⟩
  · exact ⟨rfl, rfl, rfl⟩

theorem wellFormed_finish (hsound : r.contents.Sound r.latest) (hidle : r.writing = none)
    (ends : Nat) (renamed : Bool) : (r.finish ends renamed).WellFormed := by
  obtain ⟨hfd, hwriting, hlatest⟩ := finish_frame (r := r) ends renamed
  refine ⟨?_, ?_, fun _ => hwriting.trans hidle⟩
  · rw [finish_contents, hlatest]
    exact hsound
  · rw [hfd]
    exact nofun

theorem fail_contents (renamed : Bool) : (r.fail renamed).contents = r.contents :=
  finish_contents _ _

theorem wellFormed_fail (hsound : r.contents.Sound r.latest) (hidle : r.writing = none)
    (renamed : Bool) : (r.fail renamed).WellFormed :=
  wellFormed_finish (r := { r with broken := true }) hsound hidle r.last renamed

/-- A recorder that is idle stays well formed while time passes. -/
theorem WellFormed.later (h : r.WellFormed) (hidle : r.writing = none) {time : Nat}
    (hlater : r.latest.all (· < time) = true) : WellFormed { r with latest := some time } where
  sound := h.sound.later hlater
  opened hfd := by
    have hopen := h.opened hfd
    rw [hidle] at hopen
    show Contents.Open _ _ r.writing
    rw [hidle]
    exact hopen
  closed _ := hidle

/-- A unit starts to be written after the newest file's units. -/
theorem wellFormed_writeSync {unit : AccessUnit} (answers : FileAnswers)
    (hsound : r.contents.Sound (some unit.capturedAt)) (hidle : r.writing = none)
    (htime : unit.capturedAt < 2 ^ 53) (hfd : r.fd = true)
    (hopen : ∃ front start bytes units, r.contents = front ++ [(start, bytes)] ∧
      Holds start bytes units [] ∧ (∀ before ∈ units, before.capturedAt < unit.capturedAt) ∧
      (units = [] → unit.keyframe = true ∧ unit.capturedAt = start)) :
    WellFormed { r.writeSync unit answers with latest := some unit.capturedAt } ∧
      (r.writeSync unit answers).contents = r.contents := by
  unfold writeSync
  split_ifs with hlong
  · have hfinish := finish_frame (r := { r with broken := true }) r.last answers.renamed
    refine ⟨⟨?_, ?_, fun _ => hfinish.2.1.trans hidle⟩, fail_contents _⟩
    · show (r.fail answers.renamed).contents.Sound _
      rw [fail_contents]
      exact hsound
    · rw [show (r.fail answers.renamed).fd = false from hfinish.1]
      exact nofun
  · obtain ⟨front, start, bytes, units, hcontents, hholds, hbefore, hhead⟩ := hopen
    refine ⟨⟨hsound, fun _ => ?_, fun hclosed => ?_⟩, rfl⟩
    · refine ⟨front, start, bytes, units, [], hcontents, hholds, ?_, rfl, ⟨htime, by omega⟩, rfl,
        hbefore, hhead⟩
      exact List.ne_nil_of_length_pos (by rw [length_recordBytes]; omega)
    · rw [show r.fd = false from hclosed] at hfd
      cases hfd

/-- Between two units, the newest file can take a later one. -/
theorem WellFormed.takes (h : r.WellFormed) (hidle : r.writing = none) (hfd : r.fd = true)
    {unit : AccessUnit} (hlater : r.latest.all (· < unit.capturedAt) = true) :
    ∃ front start bytes units, r.contents = front ++ [(start, bytes)] ∧
      Holds start bytes units [] ∧ (∀ before ∈ units, before.capturedAt < unit.capturedAt) ∧
      (units = [] → unit.keyframe = true ∧ unit.capturedAt = start) := by
  have hopen := h.opened hfd
  rw [hidle] at hopen
  obtain ⟨front, start, bytes, units, part, hcontents, hholds, rfl, hsome⟩ := hopen
  obtain ⟨time, htime, -, hunits⟩ := h.sound.latest (start, bytes)
    (hcontents ▸ List.mem_append_right _ (List.mem_singleton.mpr rfl))
  refine ⟨front, start, bytes, units, hcontents, hholds, ?_, fun hnil => absurd hnil hsome⟩
  intro before hbefore
  have hle := hunits before (hholds.read.symm ▸ hbefore)
  rw [htime] at hlater
  have hlt : time < unit.capturedAt := by simpa using hlater
  omega

theorem finishDue_wellFormed (h : r.WellFormed) (hidle : r.writing = none) (unit : AccessUnit)
    (answers : FileAnswers) :
    (r.finishDue segmentMs unit answers).WellFormed ∧
      (r.finishDue segmentMs unit answers).writing = none ∧
      (r.finishDue segmentMs unit answers).latest = r.latest ∧
      (r.finishDue segmentMs unit answers).contents = r.contents := by
  unfold finishDue
  split_ifs
  · obtain ⟨-, hwriting, hlatest⟩ := finish_frame (r := r) unit.capturedAt answers.renamed
    exact ⟨wellFormed_finish h.sound hidle _ _, hwriting.trans hidle, hlatest,
      finish_contents _ _⟩
  · exact ⟨h, hidle, rfl, rfl⟩

theorem record_wellFormed (h : r.WellFormed) (hidle : r.writing = none) {unit : AccessUnit}
    (hlater : r.latest.all (· < unit.capturedAt) = true) (htime : unit.capturedAt < 2 ^ 53)
    (answers : FileAnswers) :
    WellFormed { r.record unit answers with latest := some unit.capturedAt } ∧
      r.footage.Grows (r.record unit answers).footage := by
  unfold record
  split_ifs with hfd hskip hunopened
  · have hsync := wellFormed_writeSync answers (h.sound.later hlater) hidle htime hfd
      (h.takes hidle hfd hlater)
    refine ⟨hsync.1, ?_⟩
    rw [footage, footage, hsync.2]
    exact .same _
  · exact ⟨h.later hidle hlater, .same _⟩
  · refine ⟨?_, ?_⟩
    · have hfailed := wellFormed_fail (r := { r with start := unit.capturedAt }) h.sound hidle
        answers.renamed
      refine hfailed.later ((finish_frame _ _).2.1.trans hidle) ?_
      rw [show (fail { r with start := unit.capturedAt } answers.renamed).latest = r.latest from
        (finish_frame _ _).2.2]
      exact hlater
    · rw [footage, footage, fail_contents]
      exact .same _
  · have hcontents : ∀ file : SegmentFile, contents
        { r with start := unit.capturedAt, fd := true, dir := r.dir ++ [file] } =
        r.contents ++ [(file.start, file.bytes)] := fun file => List.map_append
    have hkey : unit.keyframe = true := by
      simp only [Bool.or_eq_true, Bool.not_eq_true', not_or, Bool.not_eq_false] at hskip
      exact hskip.1
    have hsync := wellFormed_writeSync answers
      (r := { r with start := unit.capturedAt, fd := true,
                     dir := r.dir ++ [⟨unit.capturedAt, none, answers.mtime, []⟩] })
      (hcontents _ ▸ h.sound.newFile hlater) hidle htime rfl
      ⟨r.contents, unit.capturedAt, [], [], hcontents _, ⟨rfl, by simp, .inl rfl, .nil, nofun⟩,
        nofun, fun _ => ⟨hkey, rfl⟩⟩
    refine ⟨hsync.1, ?_⟩
    rw [footage, footage, hsync.2, hcontents]
    have hnew : Contents.footage (r.contents ++ [(unit.capturedAt, [])]) =
        r.contents.footage ++ [(unit.capturedAt, [])] := List.map_append
    rw [hnew]
    exact .segment _ _

theorem write_wellFormed (h : r.WellFormed) (hidle : r.writing = none) {unit : AccessUnit}
    (hlater : r.latest.all (· < unit.capturedAt) = true) (htime : unit.capturedAt < 2 ^ 53)
    (answers : FileAnswers) :
    WellFormed { r.write segmentMs unit answers with latest := some unit.capturedAt } ∧
      r.footage.Grows (r.write segmentMs unit answers).footage := by
  unfold write
  split_ifs with hbroken
  · exact ⟨h.later hidle hlater, .same _⟩
  · obtain ⟨hwell, hidle', hlatest, hcontents⟩ :=
      @finishDue_wellFormed r segmentMs h hidle unit answers
    rw [show r.footage = (r.finishDue segmentMs unit answers).footage by
      rw [footage, footage, hcontents]]
    exact record_wellFormed hwell hidle' (hlatest ▸ hlater) htime answers

theorem contents_flush {front : Contents} {start : Nat} {bytes : List UInt8}
    (hcontents : r.contents = front ++ [(start, bytes)]) (more : List UInt8) (mtime : Nat) :
    (modifyNewest r.dir fun file => { file with bytes := file.bytes ++ more, mtime }).map
      (fun file => (file.start, file.bytes)) = front ++ [(start, bytes ++ more)] := by
  unfold modifyNewest
  cases hlast : r.dir.getLast? with
  | none =>
      rw [List.getLast?_eq_none_iff] at hlast
      rw [contents, hlast] at hcontents
      simp at hcontents
  | some file =>
      obtain ⟨files, hdir⟩ := List.getLast?_eq_some_iff.mp hlast
      rw [contents, hdir, List.map_append] at hcontents
      obtain ⟨hfront, hfile⟩ := List.append_inj' hcontents rfl
      cases hfile
      rw [hdir, ← hfront]
      simp

/-- A step of the recorder keeps the directory sound, and what is read of it grows. -/
theorem step_wellFormed {action : Action} (h : r.WellFormed)
    (hstep : r.step segmentMs action = some t) : t.WellFormed ∧ r.footage.Grows t.footage := by
  cases action with
  | write unit answers =>
      simp only [step, idle, Bool.and_eq_true, decide_eq_true_eq, Option.isNone_iff_eq_none] at hstep
      split_ifs at hstep with hguard
      cases hstep
      obtain ⟨⟨⟨hidle, -⟩, hlater⟩, htime⟩ := hguard
      exact write_wellFormed h hidle hlater htime answers
  | flush count mtime =>
      simp only [step] at hstep
      cases hwriting : r.writing with
      | none => simp [hwriting] at hstep
      | some pair =>
          obtain ⟨rest, unit⟩ := pair
          rw [hwriting] at hstep
          have hfd : r.fd = true := by
            cases hfd : r.fd with
            | true => rfl
            | false => rw [h.closed hfd] at hwriting; cases hwriting
          have hopen := h.opened hfd
          rw [hwriting] at hopen
          obtain ⟨front, start, bytes, hcontents, hsound, hopen', hgrows⟩ := hopen.flush h.sound count
          cases hstep
          have hflushed := contents_flush hcontents (rest.take count) mtime
          refine ⟨⟨?_, fun _ => ?_, fun hclosed => ?_⟩, ?_⟩
          · show Contents.Sound (List.map _ _) _
            rw [hflushed]
            exact hsound
          · show Contents.Open (List.map _ _) _ _
            rw [hflushed]
            exact hopen'
          · rw [show r.fd = false from hclosed] at hfd
            cases hfd
          · show r.contents.footage.Grows (Contents.footage (List.map _ _))
            rw [hflushed]
            exact hgrows
  | writeFails renamed =>
      simp only [step] at hstep
      split_ifs at hstep
      cases hstep
      refine ⟨wellFormed_fail (r := { r with writing := none }) h.sound rfl renamed, ?_⟩
      rw [footage, footage, fail_contents]
      exact .same _
  | fail renamed =>
      simp only [step, idle, Bool.and_eq_true, Option.isNone_iff_eq_none] at hstep
      split_ifs at hstep with hidle
      cases hstep
      refine ⟨wellFormed_fail h.sound hidle.1 renamed, ?_⟩
      rw [footage, footage, fail_contents]
      exact .same _
  | heartbeat mtime =>
      simp only [step] at hstep
      split_ifs at hstep
      · cases hstep
        have hcontents : contents
            { r with dir := modifyNewest r.dir fun file => { file with mtime } } = r.contents :=
          contents_modifyNewest (fun _ => rfl) fun _ => rfl
        refine ⟨⟨hcontents ▸ h.sound, hcontents ▸ h.opened, h.closed⟩, ?_⟩
        rw [footage, footage, hcontents]
        exact .same _
      · cases hstep
        exact ⟨h, .same _⟩
  | stop renamed =>
      simp only [step, idle, Bool.and_eq_true, Option.isNone_iff_eq_none] at hstep
      split_ifs at hstep with hidle
      cases hstep
      have hfinished := wellFormed_finish h.sound hidle.1 r.last renamed
      refine ⟨⟨hfinished.sound, hfinished.opened, hfinished.closed⟩, ?_⟩
      show r.footage.Grows (r.finish r.last renamed).footage
      rw [footage, footage, finish_contents]
      exact .same _

end DeviceRecording

end Stim.Server
