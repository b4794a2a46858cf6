import Mathlib.Algebra.Group.Int.Defs
import Stim.Lib.BigEndian
import Stim.Lib.Utf8

/-!
# The paths of a git index

`parseGitIndex` of `packages/stim-cli/src/fingerprint/git-index.ts`: the paths of the index file of
a sha1 repository, versions 2 to 4, or null where the file is none that it reads.  A read behind a
buffer's end throws here as it does there.

A buffer is what `readFileSync` returned, which refuses a file of 2 GiB or more.  Which file is
read, and what is done when this function returns null, is left out.
-/

namespace Stim.GitIndex

def STAT_BYTES : Nat := 40

def SHA1_BYTES : Nat := 20

def EXTENDED : Nat := 0x4000

/-- The bytes of a file that was read whole. -/
structure FileBuffer where
  bytes : List UInt8
  small : bytes.length < 2 ^ 31

inductive Thrown where
  | outOfRange
  deriving DecidableEq, Repr

/-! ## Reading a buffer -/

def readUInt32BE (data : List UInt8) (pos : Nat) : Except Thrown Nat :=
  if pos + 4 ≤ data.length then .ok (BigEndian.value ((data.drop pos).take 4))
  else .error .outOfRange

def readUInt16BE (data : List UInt8) (pos : Nat) : Except Thrown Nat :=
  if pos + 2 ≤ data.length then .ok (BigEndian.value ((data.drop pos).take 2))
  else .error .outOfRange

/-- `data.indexOf(0, pos)` -/
def indexOfZero (data : List UInt8) (pos : Nat) : Option Nat :=
  ((data.drop pos).findIdx? (· == 0)).map (pos + ·)

/-- `subarray(start, end)` of a start that is not behind the end. -/
def subarray (data : List UInt8) (start stop : Nat) : List UInt8 := (data.take stop).drop start

/-- What a bitwise operator makes of a number. -/
def toInt32 (n : Int) : Int := (n + 2 ^ 31) % 2 ^ 32 - 2 ^ 31

/-- `(n + 8) & ~7` -/
def roundUp (n : Nat) : Int := toInt32 (n + 8) - toInt32 (n + 8) % 8

/-- The bytes of a varint behind its first one: the value, and where the next field begins. -/
def varintMore (value : Int) (byte : UInt8) (pos : Nat) : List UInt8 → Option (Int × Nat)
  | [] => if byte.toNat < 128 then some (value, pos) else none
  | next :: rest =>
      if byte.toNat < 128 then some (value, pos)
      else varintMore (toInt32 ((value + 1) * 128) + next.toNat % 128) next (pos + 1) rest

/-- git's offset varint (`decode_varint` in git's varint.c). -/
def varint (data : List UInt8) (start : Nat) : Option (Int × Nat) :=
  match data.drop start with
  | [] => none
  | byte :: rest => varintMore (byte.toNat % 128) byte (start + 1) rest

/-! ## The entries -/

/-- The name of an entry whose flags end at `pos`, and where the next entry begins. -/
def readName (version : Nat) (data : List UInt8) (last start pos : Nat) (previous : List UInt8) :
    Option (List UInt8 × Nat) :=
  if version = 4 then
    match varint data pos with
    | none => none
    | some (strip, pos) =>
        if (previous.length : Int) < strip then none
        else match indexOfZero data pos with
          | none => none
          | some nul =>
              if last ≤ nul then none
              else some (previous.take (previous.length - strip).toNat ++ subarray data pos nul,
                nul + 1)
  else
    match indexOfZero data pos with
    | none => none
    | some nul =>
        if last ≤ nul then none
        else some (subarray data pos nul, (start + roundUp (nul - start)).toNat)

/-- One entry: its name and where the next one begins; `none` is null. -/
def readEntry (version : Nat) (data : List UInt8) (last start : Nat) (previous : List UInt8) :
    Except Thrown (Option (List UInt8 × Nat)) :=
  let pos := start + STAT_BYTES + SHA1_BYTES
  if last < pos + 2 then .ok none
  else (readUInt16BE data pos).map fun flags =>
    let pos := pos + 2
    let extended := flags &&& EXTENDED != 0
    if extended && version < 3 then none
    else
      let pos := if extended then pos + 2 else pos
      match readName version data last start pos previous with
      | none => none
      | some (name, next) => if name.isEmpty then none else some (name, next)

/-- The names of the entries, and where the extensions begin. -/
def readEntries (version : Nat) (data : List UInt8) (last : Nat) :
    Nat → Nat → List UInt8 → Except Thrown (Option (List (List UInt8) × Nat))
  | 0, pos, _ => .ok (some ([], pos))
  | count + 1, pos, previous =>
      match readEntry version data last pos previous with
      | .error thrown => .error thrown
      | .ok none => .ok none
      | .ok (some (name, next)) =>
          (readEntries version data last count next name).map fun rest =>
            rest.map fun (names, pos) => (name :: names, pos)

/-! ## The extensions -/

/-- Whether the extensions from `pos` on end at the checksum and may all be passed over. -/
def skipExtensions (data : List UInt8) (last pos : Nat) : Except Thrown Bool :=
  if pos < last then
    if last < pos + 8 then .ok false
    else
      let signature := (data.getD pos 0).toNat
      if signature < 0x41 ∨ 0x5a < signature then .ok false
      else match readUInt32BE data (pos + 4) with
        | .error thrown => .error thrown
        | .ok size => skipExtensions data last (pos + (8 + size))
  else .ok (pos == last)
termination_by last - pos

def signature : List UInt8 := [0x44, 0x49, 0x52, 0x43]

/-- The paths of an index, each once; `none` is null. -/
def parseGitIndex (data : FileBuffer) : Except Thrown (Option (List (List Char))) :=
  let data := data.bytes
  if data.length < 12 + SHA1_BYTES ∨ data.take 4 ≠ signature then .ok none
  else do
    let version ← readUInt32BE data 4
    if version < 2 ∨ 4 < version then .ok none
    else
      let count ← readUInt32BE data 8
      let last := data.length - SHA1_BYTES
      match ← readEntries version data last count 12 [] with
      | none => .ok none
      | some (names, pos) =>
          let whole ← skipExtensions data last pos
          .ok (if whole then some (names.map Utf8.decode).eraseDups else none)

end Stim.GitIndex
