import Mathlib.Data.Rat.Floor
import Stim.Lib.Counted
import Stim.Lib.Machine

/-!
# Native logs in windows

`collectHostedNativeLogs` of `packages/stim-cli/src/device-host/native-logs.ts`: each run queries
a window of the device's log that begins five seconds before the checkpoint, leaves out what the
run before has seen of it, appends the rest to `device.ndjson` and moves the checkpoint to the end
of the window.  A query that fails is made again with a shorter window.

Times are milliseconds.  A run whose queries do not end within its budget ends without a result.
Errors of the file system, the rotation of `device.ndjson` and the app identity that a checkpoint
carries are not modelled.
-/

namespace Stim.NativeLogs

/-- A line of the log as it is parsed, with its digest. -/
structure Event (δ : Type) where
  ts : Option Rat
  digest : δ
  msg : String
  deriving DecidableEq

/-- What `device.ndjson` holds. -/
inductive Entry (δ : Type) where
  /-- the interval that was dropped -/
  | gap (checkpoint start : Nat)
  | line (event : Event δ)
  deriving DecidableEq

structure Checkpoint (δ : Type) where
  untilMs : Nat
  boundary : List δ
  windowMs : Option Nat
  deriving DecidableEq

variable {δ : Type} [DecidableEq δ]

def isSafeInteger (n : Nat) : Bool := n < 2 ^ 53

/-- The checkpoint that is stored, unless it is malformed. -/
def readHostedNativeLogsCheckpoint (stored : Option (Checkpoint δ)) : Option (Checkpoint δ) :=
  stored.filter fun checkpoint =>
    isSafeInteger checkpoint.untilMs &&
      checkpoint.windowMs.all fun windowMs => isSafeInteger windowMs && 1000 ≤ windowMs

def entryTs : Entry δ → Option Rat
  | .gap _ start => some start
  | .line event => event.ts

/-- The newest time that was appended. -/
def newestOf (device : List (Entry δ)) : Option Rat :=
  device.foldl (fun newest entry => match entryTs entry, newest with
    | none, _ => newest
    | some ts, none => some ts
    | some ts, some known => if known < ts then some ts else newest) none

/-- `Math.floor(ms / 1000) * 1000` -/
def wholeSecond (ms : Nat) : Nat := ms / 1000 * 1000

structure Options where
  since : Nat
  final : Bool
  tailOnly : Bool

namespace Options

variable (options : Options)

/-- Only the end of the log matters. -/
def endsLog : Bool := options.final || options.tailOnly

def beginning : Nat := wholeSecond options.since

end Options

/-- The window of a query. -/
structure Window where
  windowMs : Nat
  start : Nat
  untilMs : Nat
  deriving DecidableEq

/-- The end of a window: a second after the present one. -/
def Window.stop (now : Nat) (window : Window) : Nat :=
  if window.untilMs = now then window.untilMs + 1000 else window.untilMs

/-- The window after a query that failed, or none when it cannot be shorter. -/
def shorter (options : Options) (now checkpoint : Nat) (window : Window) : Option Window :=
  let span :=
    if options.endsLog then window.untilMs - window.start else window.untilMs - checkpoint
  if span ≤ 1000 then none
  else
    let windowMs := max 1000 (span / 4 / 1000 * 1000)
    some (if options.endsLog then
        { window with windowMs := windowMs, start := max options.beginning (now - windowMs) }
      else { window with windowMs := windowMs, untilMs := min now (checkpoint + windowMs) })

/-- A query's answer; a query that fails has none. -/
abbrev Answer (δ : Type) := Nat → Nat → List (Event δ)

/-- The queries of a run: the length of the window that a failed one left in the checkpoint, and
the window that was answered. -/
def queries (options : Options) (now checkpoint : Nat) :
    Window → List (Option (Answer δ)) → Option Nat × Option (Window × List (Event δ))
  | _, [] => (none, none)
  | window, some answer :: _ =>
      (none, some (window, answer window.start (window.stop now)))
  | window, none :: attempts =>
      match shorter options now checkpoint window with
      | none => (none, none)
      | some next =>
          let later := queries options now checkpoint next attempts
          (later.1.or (some next.windowMs), later.2)

/-! ## Lines -/

def within (start stop : Nat) (event : Event δ) : Bool :=
  event.ts.any fun ts => (start : Rat) ≤ ts && ts ≤ stop

/-- What the lines of a window leave. -/
structure Sifted (δ : Type) where
  seen : δ → Nat
  boundary : List δ
  records : List (Event δ)

/-- The next window will see the line again. -/
def overlaps (window : Window) (event : Event δ) : Bool :=
  event.ts.any fun ts => ((window.untilMs - 5000 : Nat) : Rat) ≤ ts

def marked (window : Window) (s : Sifted δ) (event : Event δ) : Sifted δ :=
  if overlaps window event then { s with boundary := s.boundary ++ [event.digest] } else s

/-- A line that the window before did not see. -/
def kept (s : Sifted δ) (event : Event δ) : Sifted δ :=
  if s.seen event.digest = 0 then { s with records := s.records ++ [event] }
  else { s with seen := Counted.spend s.seen event.digest }

/-- The line is not newer than what `device.ndjson` had without a checkpoint. -/
def notNewer (newest : Option Rat) (event : Event δ) : Bool :=
  event.ts.any fun ts => newest.any fun known => ts ≤ known

def sift (window : Window) (stop : Nat) (newest : Option Rat) (s : Sifted δ) (event : Event δ) :
    Sifted δ :=
  if within window.start stop event then
    if notNewer newest event then marked window s event else kept (marked window s event) event
  else s

/-! ## Runs -/

/-- The stored checkpoint and `device.ndjson`, and where the window ended that was collected
last. -/
structure Collected (δ : Type) where
  checkpoint : Option (Checkpoint δ)
  device : List (Entry δ)
  stop : Nat
  deriving DecidableEq

def nothing : Collected δ := ⟨none, [], 0⟩

/-- The last time that a date can hold. -/
def MAX_TIME : Nat := 8640000000000000

/-- A run with a reading of the clock and what its queries gave. -/
structure Run (δ : Type) where
  clock : Nat
  attempts : List (Option (Answer δ))
  clock_le : clock ≤ MAX_TIME

/-- Where the log is complete to. -/
def checkpointOf (options : Options) (s : Collected δ) : Nat :=
  match readHostedNativeLogsCheckpoint s.checkpoint with
  | some previous => previous.untilMs
  | none => max options.beginning (match newestOf s.device with
      | none => wholeSecond options.beginning
      | some newest => (newest / 1000).floor.toNat * 1000)

/-- The window of the first query. -/
def firstWindow (options : Options) (s : Collected δ) (now : Nat) : Window :=
  let previous := readHostedNativeLogsCheckpoint s.checkpoint
  let checkpoint := checkpointOf options s
  let backlogMs := max 1000 (now - checkpoint)
  let windowMs := match previous.bind Checkpoint.windowMs with
    | some known => if options.endsLog then backlogMs else min (known * 2) backlogMs
    | none => backlogMs
  { windowMs := windowMs
    start := max options.beginning (if previous.isSome then checkpoint - 5000 else checkpoint)
    untilMs := min now (checkpoint + windowMs) }

/-- What a window that was answered leaves. -/
def stored (options : Options) (s : Collected δ) (now : Nat) (window : Window)
    (events : List (Event δ)) : Collected δ :=
  let previous := readHostedNativeLogsCheckpoint s.checkpoint
  let newest := if previous.isSome then none else newestOf s.device
  let seen := ((previous.map Checkpoint.boundary).getD []).foldl Counted.know fun _ => 0
  let sifted := events.foldl (sift window (window.stop now) newest) ⟨seen, [], []⟩
  let checkpoint := checkpointOf options s
  { checkpoint := some
      { untilMs := window.untilMs
        boundary := sifted.boundary
        windowMs := if window.untilMs < now then some window.windowMs else none }
    device := s.device ++
      (if checkpoint < window.start then [.gap checkpoint window.start] else []) ++
      sifted.records.map .line
    stop := window.stop now }

/-- The checkpoint that failed queries leave. -/
def shortened (options : Options) (s : Collected δ) (windowMs : Option Nat) :
    Option (Checkpoint δ) :=
  match windowMs, readHostedNativeLogsCheckpoint s.checkpoint with
  | some windowMs, some previous =>
      some { previous with untilMs := checkpointOf options s, windowMs := some windowMs }
  | _, _ => s.checkpoint

def collectHostedNativeLogs (options : Options) (s : Collected δ) (r : Run δ) : Collected δ :=
  let now := wholeSecond r.clock
  if now < checkpointOf options s then s
  else
    let result := queries options now (checkpointOf options s) (firstWindow options s now) r.attempts
    match result.2 with
    | none => { s with checkpoint := shortened options s result.1 }
    | some answered => stored options s now answered.1 answered.2

end Stim.NativeLogs
