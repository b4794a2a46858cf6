import Stim.Lib.OrderedMap
import Stim.Lib.Utf8
import Stim.Lib.Whitespace

/-!
# Log records

A record of a log as `parseNdjsonLine` of `packages/core/state/ndjson.ts` gives it: an object of
JSON values by their names.  Arrays and objects within a record are known by their identity, which
is all that `===` sees of them.
-/

namespace Stim.Logs

inductive JsonValue where
  | null
  | bool (value : Bool)
  | num (value : Rat)
  /-- a number that no double can hold, such as `1e999` -/
  | infinity (negative : Bool)
  | str (value : String)
  | ref (id : Nat)
  deriving DecidableEq

abbrev NdjsonRecord := OrderedMap String JsonValue

namespace NdjsonRecord

variable (record : NdjsonRecord)

def ts : Option JsonValue := record.get "ts"
def src : Option JsonValue := record.get "src"
def level : Option JsonValue := record.get "level"
def msg : Option JsonValue := record.get "msg"
def event : Option JsonValue := record.get "event"
def raw : Option JsonValue := record.get "raw"
def marker : Option JsonValue := record.get "marker"
def slot : Option JsonValue := record.get "slot"
def platform : Option JsonValue := record.get "platform"

end NdjsonRecord

/-- `typeof value === 'string'`, with the string. -/
def text : Option JsonValue → Option String
  | some (.str value) => some value
  | _ => none

theorem text_eq_some {value : Option JsonValue} {word : String} (h : text value = some word) :
    value = some (.str word) := by
  unfold text at h
  split at h
  · cases h
    rfl
  · cases h

/-- The time of a record, if it has a finite one. -/
def tsOf (record : NdjsonRecord) : Option Rat :=
  match record.ts with
  | some (.num value) => some value
  | _ => none

def LEVELS : List String := ["debug", "info", "warn", "error", "fatal"]

def levelRank (level : Option JsonValue) : Nat :=
  match text level with
  | none => 0
  | some level => if level ∈ LEVELS then LEVELS.idxOf level else 0

/-! ## Texts of records -/

/-- What `JSON.parse` makes of a text that it accepts. -/
inductive Parsed (ρ : Type) where
  | object (record : ρ)
  /-- null, a number, a string, a boolean or an array -/
  | other
  deriving DecidableEq

variable {ρ : Type} (parse : List Char → Option (Parsed ρ))

def parseNdjsonLine (line : List Char) : Option ρ :=
  if Whitespace.trim line = [] then none
  else match parse (Whitespace.trim line) with
    | some (.object record) => some record
    | _ => none

def parseNdjsonText (text : List Char) : List ρ :=
  (Lines.complete '\n' text).filterMap (parseNdjsonLine parse)

/-- The records of a file that is read whole. -/
def recordsOf (bytes : List UInt8) : List ρ := parseNdjsonText parse (Utf8.decode bytes)

theorem recordsOf_eq (bytes : List UInt8) :
    recordsOf parse bytes =
      (Lines.complete Utf8.newline bytes).filterMap (parseNdjsonLine parse ∘ Utf8.decode) := by
  rw [recordsOf, parseNdjsonText, Utf8.complete_decode, List.filterMap_map]

/-- Only complete lines are records. -/
theorem recordsOf_through (bytes : List UInt8) :
    recordsOf parse (Lines.through Utf8.newline bytes) = recordsOf parse bytes := by
  rw [recordsOf_eq, recordsOf_eq, Lines.complete_through]

/-- After complete lines, more bytes are more records. -/
theorem recordsOf_append {bytes : List UInt8} (h : Lines.rest Utf8.newline bytes = [])
    (more : List UInt8) :
    recordsOf parse (bytes ++ more) = recordsOf parse bytes ++ recordsOf parse more := by
  rw [recordsOf_eq, recordsOf_eq, recordsOf_eq, Lines.complete_append, h, List.nil_append,
    List.filterMap_append]

end Stim.Logs
