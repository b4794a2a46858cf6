import Stim.Core.Ndjson
import Stim.Lib.Machine

/-!
# Reading a log as it grows

`packages/core/state/ndjson-tail.ts`: `createNdjsonTail` gives a reader of a log and of its
rotated generation.  On each call it reads only what was appended since the one before; a
generation that it cannot go on with it reads again from its start.
`readNdjsonGenerations` of `packages/core/state/ndjson.ts` reads both whole.

A file is known to the reader by its inode number.  Its serial number is not seen by the program;
it tells a file from a later one with the same inode number.  Directories at either path, and
files that change while a call reads them, are not modelled.
-/

namespace Stim.Logs.NdjsonTail

structure LogFile where
  serial : Nat
  ino : Nat
  bytes : List UInt8
  deriving DecidableEq

inductive Path where
  | rotated | current
  deriving DecidableEq

/-- The files at the two paths. -/
structure Directory where
  rotated : Option LogFile
  current : Option LogFile
  deriving DecidableEq

def Directory.file (directory : Directory) : Path → Option LogFile
  | .rotated => directory.rotated
  | .current => directory.current

/-- What the reader knows of one generation. -/
structure Generation (ρ : Type) where
  id : Option Nat
  offset : Nat
  head : List UInt8
  records : List ρ
  deriving DecidableEq

def HEAD_BYTES : Nat := 64

/-- `generation`, and what `reset` leaves. -/
def generation {ρ : Type} : Generation ρ := ⟨none, 0, [], []⟩

def fileId (file : LogFile) : Nat := file.ino

def readAt (file : LogFile) (length position : Nat) : List UInt8 :=
  (file.bytes.drop position).take length

variable {ρ : Type}

/-- Whether the reader starts again on a file. -/
def Replaced (gen : Generation ρ) (file : LogFile) : Prop :=
  gen.id ≠ some (fileId file) ∨ file.bytes.length < gen.offset ∨
    (0 < gen.head.length ∧ readAt file gen.head.length 0 ≠ gen.head)

instance (gen : Generation ρ) (file : LogFile) : Decidable (Replaced gen file) :=
  inferInstanceAs (Decidable (_ ∨ _ ∨ (_ ∧ _)))

section Reader

variable (parse : List Char → Option (Parsed ρ))

/-- The first bytes that are remembered after more were read. -/
def grown (head buffer : List UInt8) : List UInt8 :=
  if head.length < HEAD_BYTES then (head ++ buffer).take HEAD_BYTES else head

/-- Reads what a generation has beyond what was read of it. -/
def readOn (gen : Generation ρ) (changed : Bool) (file : LogFile) : Generation ρ × Bool :=
  let length := file.bytes.length - gen.offset
  if length = 0 then (gen, changed)
  else
    let buffer := Lines.through Utf8.newline (readAt file length gen.offset)
    if buffer = [] then (gen, changed)
    else
      let added := parseNdjsonText parse (Utf8.decode buffer)
      ({ gen with
          records := gen.records ++ added
          head := grown gen.head buffer
          offset := gen.offset + buffer.length },
        changed || !added.isEmpty)

/-- The generation afterwards, and whether its records may have changed. -/
def advance (gen : Generation ρ) : Option LogFile → Generation ρ × Bool
  | none => (generation, gen.id.isSome)
  | some file =>
      if Replaced gen file then
        readOn parse ⟨some (fileId file), 0, [], []⟩
          (gen.id.isSome || !gen.records.isEmpty) file
      else readOn parse gen false file

/-- The state that the calls of one reader share. -/
structure Tail (ρ : Type) where
  rotated : Generation ρ
  current : Generation ρ
  all : List ρ
  deriving DecidableEq

def createNdjsonTail : Tail ρ := ⟨generation, generation, []⟩

def statId (file : Option LogFile) : Option Nat := file.map fileId

/-- Whether the current generation is now at the rotated path. -/
def Renamed (tail : Tail ρ) (directory : Directory) : Prop :=
  tail.current.id ≠ none ∧ statId directory.current ≠ tail.current.id ∧
    statId directory.rotated = tail.current.id

instance (tail : Tail ρ) (directory : Directory) : Decidable (Renamed tail directory) :=
  inferInstanceAs (Decidable (_ ∧ _ ∧ _))

def moved (tail : Tail ρ) (directory : Directory) : Tail ρ :=
  if Renamed tail directory then
    { tail with rotated := tail.current, current := generation }
  else tail

/-- One call; it returns the records that the state then holds. -/
def read (tail : Tail ρ) (directory : Directory) : Tail ρ :=
  let started := moved tail directory
  let rotated := advance parse started.rotated directory.rotated
  let current := advance parse started.current directory.current
  { rotated := rotated.1
    current := current.1
    all :=
      if Renamed tail directory ∨ rotated.2 ∨ current.2 then
        rotated.1.records ++ current.1.records
      else tail.all }

/-- The records of one generation that is read whole. -/
def readGeneration (file : Option LogFile) : List ρ :=
  match file with
  | none => []
  | some file => recordsOf parse file.bytes

def readNdjsonGenerations (directory : Directory) : List ρ :=
  [directory.rotated, directory.current].flatMap (readGeneration parse)

end Reader

/-! ## Runs -/

/-- The directory, the directory as the call before read it, and the reader. -/
structure Watched (ρ : Type) where
  directory : Directory
  last : Directory
  tail : Tail ρ
  /-- the serial number of the next file -/
  next : Nat
  deriving DecidableEq

inductive Action where
  | append (path : Path) (bytes : List UInt8)
  /-- the current file becomes the rotated one -/
  | rename
  /-- a new current file, with an inode number that no file has -/
  | create (ino : Nat)
  | delete (path : Path)
  | truncate (path : Path) (length : Nat)
  | call
  deriving DecidableEq

def Directory.set (directory : Directory) (file : Option LogFile) : Path → Directory
  | .rotated => { directory with rotated := file }
  | .current => { directory with current := file }

/-- A new reader of an empty directory. -/
def fresh : Watched ρ := ⟨⟨none, none⟩, ⟨none, none⟩, createNdjsonTail, 0⟩

variable (parse : List Char → Option (Parsed ρ))

def step (s : Watched ρ) : Action → Option (Watched ρ)
  | .append path bytes => (s.directory.file path).map fun file =>
      { s with directory := s.directory.set (some { file with bytes := file.bytes ++ bytes }) path }
  | .rename => s.directory.current.map fun file =>
      { s with directory := ⟨some file, none⟩ }
  | .create ino =>
      if s.directory.current = none ∧ statId s.directory.rotated ≠ some ino then
        some { s with
          directory.current := some ⟨s.next, ino, []⟩
          next := s.next + 1 }
      else none
  | .delete path => some { s with directory := s.directory.set none path }
  | .truncate path length => (s.directory.file path).bind fun file =>
      if length < file.bytes.length then
        some { s with
          directory := s.directory.set (some { file with bytes := file.bytes.take length }) path }
      else none
  | .call => some { s with
      last := s.directory
      tail := read parse s.tail s.directory }

end Stim.Logs.NdjsonTail
