import Mathlib.Data.List.Sort
import Mathlib.Data.String.Basic
import Stim.Core.Ndjson
import Stim.Lib.Machine

/-!
# Paging hosted logs

`readLogsSince` of `packages/core/state/hosted-logs.ts` with `readLines`: a page takes the log files
in the order of their names, reads each from its cursor entry on as far as the budget of the page
allows, and cuts it after its last complete line.

The records of a file are pushed with one call that has each of them as an argument, and throws when
they are more than a call takes.

A client asks with the cursor of the page before.  Between its calls bytes are appended to the log
files.  A file that is gone or truncated within a call, and reads that give less than was asked for,
are not modelled.
-/

namespace Stim.Logs.HostedLogs

def HOSTED_LOGS_PAGE_BYTES : Nat := 1024 ^ 2
def HOSTED_LOGS_FIRST_BYTES : Nat := 4 * 1024 ^ 2

/-- A log file, and the generation before it that was rotated away. -/
structure LogFile where
  bytes : List UInt8
  previous : Option (List UInt8)

abbrev Directory := OrderedMap String LogFile

abbrev HostedLogsCursor := OrderedMap String Nat

/-- The log files in the order of their names. -/
def logFiles (directory : Directory) : List (String × LogFile) :=
  directory.entries.insertionSort fun a b => a.1 ≤ b.1

def readSpan (bytes : List UInt8) (start stop : Nat) : List UInt8 :=
  (bytes.drop start).take (stop - start)

/-- Where the first line starts that is read. -/
def firstLine (bytes : List UInt8) (aligned : Bool) : Nat :=
  if aligned then 0
  else if Utf8.newline ∈ bytes then bytes.idxOf Utf8.newline + 1
  else bytes.length

-- `most` is how many arguments a call takes
variable {ρ : Type} (parse : List Char → Option (Parsed ρ)) (most : Nat)

/-- The records that were read, and the offset after them. -/
def readLines (bytes : List UInt8) (start size limit : Nat) (aligned : Bool) : List ρ × Nat :=
  let span := readSpan bytes start (min size (start + limit))
  let first := firstLine span aligned
  let stop := (Lines.through Utf8.newline span).length
  (if first < stop then recordsOf parse ((span.take stop).drop first) else [],
    start + max first stop)

/-- What a page has of one file. -/
structure FilePage (ρ : Type) where
  name : String
  records : List ρ
  /-- how many of them the last push has as arguments -/
  pushed : Nat
  /-- where the first line is that was read; the page does not keep it -/
  first : Nat
  offset : Nat
  more : Bool
  deriving DecidableEq

/-- The end of the generation that a file with a cursor entry was rotated from, and what it takes
of the budget.  An error is ignored. -/
def readPrevious (previous : Option (List UInt8)) (offset budget : Nat) : List ρ × Nat :=
  match previous with
  | none => ([], 0)
  | some bytes =>
      if offset < bytes.length then
        let start := max offset (bytes.length - budget)
        let records := (readLines parse bytes start bytes.length budget (start = offset)).1
        if most < records.length then ([], 0) else (records, bytes.length - start)
      else ([], 0)

/-- Where a file is read from: its cursor entry, or so far before its end. -/
def startOf (bytes : List UInt8) (offset : Option Nat) : Nat :=
  offset.getD (bytes.length - HOSTED_LOGS_FIRST_BYTES)

/-- The page of a file from an offset, and the budget that is left. -/
def readCurrent (name : String) (bytes : List UInt8) (offset : Option Nat) (budget : Nat) :
    FilePage ρ × Nat :=
  let start := startOf bytes offset
  let reading := min budget (bytes.length - start)
  let aligned := offset.isSome || start = 0
  let page := readLines parse bytes start bytes.length reading aligned
  let records := if 0 < reading then page.1 else []
  ({ name := name
     records := records
     pushed := records.length
     first := start + firstLine (readSpan bytes start (min bytes.length (start + reading))) aligned
     offset := if 0 < reading then page.2 else start
     more := start + reading < bytes.length },
    budget - reading)

def readFile (cursor : HostedLogsCursor) (budget : Nat) (entry : String × LogFile) :
    FilePage ρ × Nat :=
  match cursor.get entry.1 with
  | none => readCurrent parse entry.1 entry.2.bytes none budget
  | some offset =>
      if entry.2.bytes.length < offset then
        let previous := readPrevious parse most entry.2.previous offset budget
        let current := readCurrent parse entry.1 entry.2.bytes (some 0) (budget - previous.2)
        ({ current.1 with records := previous.1 ++ current.1.records }, current.2)
      else readCurrent parse entry.1 entry.2.bytes (some offset) budget

def readFiles (cursor : HostedLogsCursor) : Nat → List (String × LogFile) → List (FilePage ρ)
  | _, [] => []
  | budget, entry :: entries =>
      let page := readFile parse most cursor budget entry
      page.1 :: readFiles cursor page.2 entries

structure HostedLogsPage (ρ : Type) where
  records : List ρ
  cursor : HostedLogsCursor
  more : Bool

def joined (pages : List (FilePage ρ)) : HostedLogsPage ρ where
  records := pages.flatMap FilePage.records
  cursor := .ofList (pages.map fun page => (page.name, page.offset))
  more := pages.any FilePage.more

/-- The page, or none when a push throws. -/
def readLogsSince (directory : Directory) (cursor : HostedLogsCursor) : Option (HostedLogsPage ρ) :=
  let pages := readFiles parse most cursor HOSTED_LOGS_PAGE_BYTES (logFiles directory)
  if pages.any fun page => most < page.pushed then none else some (joined pages)

/-! ## A client that pages -/

/-- A call, with the directory and the cursor that it had, and no page when it threw. -/
structure Call (ρ : Type) where
  directory : Directory
  cursor : HostedLogsCursor
  page : Option (HostedLogsPage ρ)

/-- The directory, the client's cursor and the last call. -/
structure Paging (ρ : Type) where
  directory : Directory
  cursor : HostedLogsCursor
  last : Option (Call ρ)
  /-- what the calls returned of each file -/
  collected : String → List ρ
  /-- where the first line was that the client was to get of each file -/
  begun : String → Option Nat

inductive Action where
  /-- bytes at the end of a file, or of a new one -/
  | append (name : String) (bytes : List UInt8)
  | call

def opened (directory : Directory) (cursor : HostedLogsCursor) : Paging ρ :=
  ⟨directory, cursor, none, fun _ => [], cursor.get⟩

def appended (directory : Directory) (name : String) (bytes : List UInt8) : Directory :=
  match directory.get name with
  | none => directory.set name ⟨bytes, none⟩
  | some file => directory.set name { file with bytes := file.bytes ++ bytes }

def answered (s : Paging ρ) : Paging ρ :=
  let pages := readFiles parse most s.cursor HOSTED_LOGS_PAGE_BYTES (logFiles s.directory)
  { s with
    cursor := (joined pages).cursor
    last := some ⟨s.directory, s.cursor, some (joined pages)⟩
    collected := fun name =>
      s.collected name ++ (pages.filter fun page => page.name = name).flatMap FilePage.records
    begun := fun name => (s.begun name).or
      ((pages.find? fun page => page.name = name).map FilePage.first) }

/-- A call that throws leaves the client with its cursor. -/
def called (s : Paging ρ) : Paging ρ :=
  match readLogsSince parse most s.directory s.cursor with
  | none => { s with last := some ⟨s.directory, s.cursor, none⟩ }
  | some _ => answered parse most s

def step (s : Paging ρ) : Action → Option (Paging ρ)
  | .append name bytes => some { s with directory := appended s.directory name bytes }
  | .call => some (called parse most s)

end Stim.Logs.HostedLogs
