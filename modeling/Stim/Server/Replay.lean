import Stim.Server.Recording
import Mathlib.Algebra.Order.Ring.Unbundled.Rat

/-!
# Replay

`Player` of `packages/server/src/replay.ts`: plays one device's footage while it may still be
recorded.  `seek` shows the frame at a time by sending the units from the keyframe before it, and
plays on at a rate: each unit is sent by a timer, and after the last unit that the player knows of
it reads the segment again or goes on to the next one.

When a timer fires is left open, so the delays are not computed here.
-/

namespace Stim.Server

/-- The index of the last keyframe. -/
def lastKeyframe : List AccessUnit → Option Nat
  | [] => none
  | unit :: rest =>
      match lastKeyframe rest with
      | some index => some (index + 1)
      | none => if unit.keyframe then some 0 else none

/-- What `seek` shows: `units[first]` up to `units[next]` of a segment. -/
structure Shot where
  segment : Nat
  units : List AccessUnit
  first : Nat
  next : Nat
  deriving DecidableEq

def Shot.slice (shot : Shot) : List AccessUnit := (shot.units.take shot.next).drop shot.first

/-- The capture time of the frame shown. -/
def Shot.shown (shot : Shot) : Option Nat := shot.slice.getLast?.map AccessUnit.capturedAt

/-- The first segment that ends at or after a time, or the newest one. -/
def segmentAt (segments : List SegmentFile) (time : ℚ) : Option SegmentFile :=
  (segments.find? fun segment => decide (time ≤ segment.end_)).or segments.getLast?

def shotAt (segments : List SegmentFile) (time : ℚ) : Option Shot :=
  match segmentAt segments time with
  | none => none
  | some segment =>
      let units := readUnits segment
      let target : ℚ := max time segment.start
      let known := units.takeWhile fun unit => decide ((unit.capturedAt : ℚ) ≤ target)
      match (lastKeyframe known).or (units.findIdx? AccessUnit.keyframe) with
      | none => none
      | some first =>
          let after := (units.drop (first + 1)).takeWhile fun unit =>
            decide ((unit.capturedAt : ℚ) ≤ target)
          some ⟨segment.start, units, first, first + 1 + after.length⟩

/-- What a timer of a player does. -/
inductive Callback
  /-- Sends the units that a seek shows, and plays on. -/
  | burst (generation : Nat) (shot : Shot) (rate : ℚ)
  /-- Sends `list[next]` of a segment, and plays on. -/
  | send (generation segment : Nat) (list : List AccessUnit) (next : Nat)
  deriving DecidableEq

def Callback.generation : Callback → Nat
  | .burst generation _ _ => generation
  | .send generation _ _ _ => generation

structure Player where
  /-- the armed timers -/
  timers : Nat → Option Callback
  /-- the timer armed last -/
  timer : Option Nat
  nextTimer : Nat
  generation : Nat
  position : Nat
  rate : ℚ
  stopped : Bool

/-- How playback goes on after the units that a player knows of. -/
inductive Advance
  | ended
  | plays (segment : Nat) (list : List AccessUnit) (next : Nat)
  deriving DecidableEq

/-- The loop of `play`, for at most `fuel` segments. -/
def advance : Nat → List SegmentFile → Nat → List AccessUnit → Nat → Option Advance
  | 0, _, _, _, _ => none
  | fuel + 1, segments, segment, list, next =>
      if next < list.length then some (.plays segment list next)
      else
        let current := segments.find? fun file => decide (file.start = segment)
        let reread := (current.map readUnits).getD []
        if list.length < reread.length then some (.plays segment reread next)
        else
          match segments.find? fun file => decide (segment < file.start) with
          | none => some .ended
          | some following => advance fuel segments following.start (readUnits following) 0

/-- A call of `seek`. -/
structure Seek where
  time : ℚ
  segments : List SegmentFile
  shot : Option Shot
  deriving DecidableEq

/-- A unit that was sent, and whose callback sent it. -/
structure Output where
  unit : AccessUnit
  generation : Nat
  /-- the player's generation then -/
  current : Nat
  stopped : Bool
  deriving DecidableEq

/-- A call of `ended`. -/
structure Ending where
  position : Nat
  /-- the unit sent last since the seek -/
  last : Option AccessUnit
  /-- the newest whole unit on disk -/
  newest : Option AccessUnit
  deriving DecidableEq

/-- A recording and a player of it. -/
structure Replay where
  recording : DeviceRecording
  player : Player
  /-- the last seek -/
  seeking : Option Seek
  /-- what was sent since the last seek -/
  sent : List AccessUnit
  outputs : List Output
  endings : List Ending

namespace Replay

def init : Replay where
  recording := .init
  player := ⟨fun _ => none, none, 0, 0, 0, 0, false⟩
  seeking := none
  sent := []
  outputs := []
  endings := []

def segments (s : Replay) : List SegmentFile := listSegments s.recording.dir

/-- The whole units on disk. -/
def recorded (s : Replay) : List AccessUnit := s.segments.flatMap readUnits

def setTimeout (s : Replay) (callback : Callback) : Replay :=
  { s with
    player := { s.player with
      timers := Function.update s.player.timers s.player.nextTimer (some callback)
      timer := some s.player.nextTimer
      nextTimer := s.player.nextTimer + 1 } }

/-- A timer that fires is no longer armed. -/
def disarm (s : Replay) (timer : Nat) : Replay :=
  { s with player := { s.player with timers := Function.update s.player.timers timer none } }

def cancel (s : Replay) : Replay :=
  { s with
    player := { s.player with
      generation := s.player.generation + 1
      timers := match s.player.timer with
        | none => s.player.timers
        | some timer => Function.update s.player.timers timer none
      timer := none } }

/-- Units go to the client, for a callback of a generation. -/
def output (s : Replay) (generation : Nat) (units : List AccessUnit) : Replay :=
  { s with
    sent := s.sent ++ units
    outputs := s.outputs ++ units.map fun unit =>
      ⟨unit, generation, s.player.generation, s.player.stopped⟩ }

def setPosition (s : Replay) (position : Nat) : Replay :=
  { s with player := { s.player with position } }

/-- Whether a callback of a generation still has a say. -/
def live (s : Replay) (generation : Nat) : Bool :=
  generation = s.player.generation && !s.player.stopped

def play (s : Replay) (generation segment : Nat) (list : List AccessUnit) (next : Nat) : Replay :=
  if !s.live generation then s
  else
    match advance (s.segments.length + 1) s.segments segment list next with
    | none => s
    | some .ended =>
        { s with
          endings := s.endings ++ [⟨s.player.position, s.sent.getLast?, s.recorded.getLast?⟩] }
    | some (.plays segment list next) => s.setTimeout (.send generation segment list next)

/-- Runs what a timer does, while the client is or is not congested. -/
def call (s : Replay) (callback : Callback) (congested : Bool) : Replay :=
  if !s.live callback.generation then s
  else if congested then s.setTimeout callback
  else
    match callback with
    | .burst generation shot rate =>
        let s := (s.output generation shot.slice).setPosition (shot.shown.getD 0)
        if 0 < rate then s.play generation shot.segment shot.units shot.next else s
    | .send generation segment list next =>
        match list[next]? with
        | none => s
        | some unit =>
            ((s.output generation [unit]).setPosition unit.capturedAt).play generation segment list
              (next + 1)

/-- The start of a seek, which takes the say from every earlier callback. -/
def renew (s : Replay) (rate : ℚ) (seeking : Seek) : Replay :=
  let s := s.cancel
  { s with
    player := { s.player with generation := s.player.generation + 1, rate }
    seeking := some seeking
    sent := [] }

def seek (s : Replay) (time rate : ℚ) (congested : Bool) : Replay :=
  let s := s.renew rate ⟨time, s.segments, shotAt s.segments time⟩
  match shotAt s.segments time with
  | none => s
  | some shot =>
      (s.setPosition (shot.shown.getD 0)).call (.burst s.player.generation shot rate) congested

/-- Sends the frame at the current position again. -/
def resend (s : Replay) (congested : Bool) : Replay :=
  if s.player.position = 0 then s else s.seek s.player.position s.player.rate congested

def stop (s : Replay) : Replay :=
  cancel { s with player := { s.player with stopped := true } }

inductive Action
  | record (action : DeviceRecording.Action)
  | seek (time rate : ℚ) (congested : Bool)
  | resend (congested : Bool)
  | stop
  /-- A timer fires. -/
  | fire (timer : Nat) (congested : Bool)
  deriving DecidableEq

def step (segmentMs : Nat) (s : Replay) : Action → Option Replay
  | .record action => (s.recording.step segmentMs action).map fun recording => { s with recording }
  | .seek time rate congested => some (s.seek time rate congested)
  | .resend congested => some (s.resend congested)
  | .stop => some s.stop
  | .fire timer congested =>
      match s.player.timers timer with
      | none => none
      | some callback => some ((s.disarm timer).call callback congested)

end Replay

end Stim.Server
