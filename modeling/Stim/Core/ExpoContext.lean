import Stim.Core.Ndjson

/-!
# The context of an Expo error

`attachExpoErrorContext` and `expoContextFollower` of `packages/core/state/logs-query.ts`: after an
Expo error come the code frame and the stack lines of its event.  The reader looks for them in the
whole timeline, the follower holds an error until its event goes on with something else.
-/

namespace Stim.Logs

/-! ## Context lines -/

/-- What may follow a match, for every way to match. -/
abbrev Pattern := List Char → List (List Char)

namespace Pattern

def one (p : Char → Bool) : Pattern
  | [] => []
  | c :: rest => if p c then [rest] else []

def star (p : Char → Bool) : Pattern
  | [] => [[]]
  | c :: rest => (c :: rest) :: if p c then star p rest else []

def seq (parts : List Pattern) : Pattern := fun chars =>
  parts.foldl (fun rests part => rests.flatMap part) [chars]

def plus (p : Char → Bool) : Pattern := seq [one p, star p]

def optional (p : Char → Bool) : Pattern := fun chars => chars :: one p chars

def literal (word : String) : Pattern := seq (word.toList.map fun c => one (· == c))

/-- `^pattern` -/
def starts (pattern : Pattern) (chars : List Char) : Bool := !(pattern chars).isEmpty

/-- `^pattern$` -/
def isWhole (pattern : Pattern) (chars : List Char) : Bool := (pattern chars).contains []

end Pattern

open Whitespace Pattern

def isDigit (c : Char) : Bool := '0' ≤ c && c ≤ '9'

/-- What `.` matches. -/
def isInline (c : Char) : Bool := !([10, 13, 0x2028, 0x2029].contains c.toNat)

/-- `:\d+:\d+` -/
def position : Pattern := seq [literal ":", plus isDigit, literal ":", plus isDigit]

/-- The forms of a code frame and of a stack. -/
def isContextText (msg : List Char) : Bool :=
  starts (seq [literal "Code: ", one fun c => !isSpace c]) msg ||
  starts (seq [star isSpace, optional (· == '>'), star isSpace, plus isDigit, star isSpace,
    literal "|"]) msg ||
  starts (seq [star isSpace, literal "|", star isSpace, literal "^"]) msg ||
  isWhole (literal "Call Stack") msg ||
  isWhole (seq [plus isSpace, plus isInline, literal "(",
    plus fun c => c != '(' && c != ')', position, literal ")", star isSpace]) msg ||
  isWhole (seq [plus isSpace, literal "at", plus isSpace,
    plus fun c => !isSpace c, position, star isSpace]) msg

/-- `event` is an error's; `undefined` is one too. -/
def isSameExpoStream (record : NdjsonRecord) (event : Option JsonValue) : Bool :=
  record.src == some (.str "metro") && record.raw == some (.bool true) && record.event == event

def isExpoErrorContext (record : NdjsonRecord) (event : Option JsonValue) : Bool :=
  isSameExpoStream record event &&
    match text record.msg with
    | none => false
    | some msg => isContextText msg.toList

def isExpoError (record : NdjsonRecord) : Bool :=
  record.src == some (.str "metro") && record.raw == some (.bool true) &&
    (record.level == some (.str "error") || record.level == some (.str "fatal")) &&
    (text record.msg).isSome

inductive ExpoContextTarget where
  | msg
  | field
  deriving DecidableEq, Repr

/-- A record, with the array that takes the place of its `context` field. -/
structure LogEntry where
  record : NdjsonRecord
  context : Option (List String)

def LogEntry.plain (record : NdjsonRecord) : LogEntry := ⟨record, none⟩

def withExpoContext (record : NdjsonRecord) (context : List String) :
    ExpoContextTarget → LogEntry
  | .msg =>
      if context = [] then .plain record
      else .plain (record.set "msg"
        (.str ("\n".intercalate ((text record.msg).getD "" :: context))))
  | .field => if context = [] then .plain record else ⟨record, some context⟩

/-! ## Reading -/

/-- The messages of the context lines of an event, up to what it goes on with. -/
def contextLines (event : Option JsonValue) : List NdjsonRecord → List String
  | [] => []
  | next :: rest =>
      if !isSameExpoStream next event then contextLines event rest
      else if !isExpoErrorContext next event then []
      else (text next.msg).getD "" :: contextLines event rest

/-- What `findIndex` looks for. -/
def sameEntry (record entry : NdjsonRecord) : Bool :=
  entry.ts == record.ts && entry.src == record.src && entry.msg == record.msg &&
    entry.event == record.event

def attachExpoErrorContext (all matched : List NdjsonRecord) (into : ExpoContextTarget) :
    List LogEntry :=
  matched.map fun record =>
    if !isExpoError record then .plain record
    else match all.findIdx? (sameEntry record) with
      | none => .plain record
      | some index => withExpoContext record (contextLines record.event (all.drop (index + 1))) into

/-! ## Following -/

/-- An error that the follower holds. -/
structure Held where
  record : NdjsonRecord
  context : List String
  queued : List NdjsonRecord

structure Follower where
  pending : Option Held
  grew : Bool
  /-- what `onRecord` was called with -/
  emitted : List LogEntry

namespace Follower

def new : Follower := ⟨none, false, []⟩

def flush (into : ExpoContextTarget) (f : Follower) : Follower :=
  match f.pending with
  | none => f
  | some held => { f with
      pending := none
      emitted := f.emitted ++ withExpoContext held.record held.context into ::
        held.queued.map .plain }

/-- `push` once the pending error's stream has been looked at. -/
def pushRest (f : Follower) (record : NdjsonRecord) (isMatch : Bool) : Follower :=
  match f.pending with
  | some held =>
      if isMatch then { f with pending := some { held with queued := held.queued ++ [record] } }
      else f
  | none =>
      if isMatch && isExpoError record then { f with pending := some ⟨record, [], []⟩, grew := true }
      else if isMatch then { f with emitted := f.emitted ++ [.plain record] }
      else f

def push (into : ExpoContextTarget) (f : Follower) (record : NdjsonRecord) (isMatch : Bool) :
    Follower :=
  match f.pending with
  | some held =>
      if isSameExpoStream record held.record.event then
        if !isExpoErrorContext record held.record.event then (f.flush into).pushRest record isMatch
        else { f with
          pending := some { held with
            context := held.context ++ [(text record.msg).getD ""]
            queued := if isMatch then held.queued ++ [record] else held.queued }
          grew := true }
      else f.pushRest record isMatch
  | none => f.pushRest record isMatch

def settle (into : ExpoContextTarget) (f : Follower) : Follower :=
  let f := if f.grew then f else f.flush into
  { f with grew := false }

def pushAll (into : ExpoContextTarget) (matching : NdjsonRecord → Bool) (f : Follower)
    (records : List NdjsonRecord) : Follower :=
  records.foldl (fun f record => f.push into record (matching record)) f

end Follower

/-- What the follower emits of records pushed in order, with a flush at the end. -/
def follow (into : ExpoContextTarget) (matching : NdjsonRecord → Bool)
    (records : List NdjsonRecord) : List LogEntry :=
  ((Follower.new.pushAll into matching records).flush into).emitted

end Stim.Logs
