import Stim.Lib.CheckedReads

/-!
# Where an APK's signing block starts

The end of the file is searched backward for the end-of-central-directory record.  The signing block
stands in front of the directory that the record points to, and states its size at both ends.
-/

namespace Stim.SignedTail

open CheckedReads

abbrev Bytes := List UInt8

def EOCD_SIGNATURE : Nat := 0x06054b50

def EOCD_MIN_BYTES : Nat := 22

def EOCD_SEARCH_BYTES : Nat := EOCD_MIN_BYTES + 0xffff

def SIGNING_BLOCK_FOOTER_BYTES : Nat := 24

/-- `APK Sig Block 42` -/
def SIGNING_BLOCK_MAGIC : Bytes :=
  [0x41, 0x50, 0x4b, 0x20, 0x53, 0x69, 0x67, 0x20, 0x42, 0x6c, 0x6f, 0x63, 0x6b, 0x20, 0x34, 0x32]

def SIGNATURE_SCHEME_IDS : List Nat := [0x7109871a, 0xf05368c0]

/-- What makes a call throw. -/
inductive Fault
  /-- The range that is read leaves the file. -/
  | shortRead
  /-- A negative position or length is read. -/
  | negativeRead
  /-- A number is taken from behind the end of a buffer. -/
  | pastBuffer
  deriving DecidableEq, Repr

/-- The `read` of a file: exactly the requested bytes. -/
def apkRead (file : Bytes) (position length : Int) : Except Fault Bytes :=
  if position < 0 ∨ length < 0 then .error .negativeRead
  else
    match slice file position.toNat length.toNat with
    | some bytes => .ok bytes
    | none => .error .shortRead

/-- A number from a buffer. -/
def readUInt (buffer : Bytes) (offset width : Nat) : Except Fault Nat :=
  match readLE buffer offset width with
  | some n => .ok n
  | none => .error .pastBuffer

/-- Whether a record at `i` ends where the file does. -/
def isEnd (tail : Bytes) (i : Nat) : Except Fault Bool := do
  if (← readUInt tail i 4) = EOCD_SIGNATURE then
    return i + EOCD_MIN_BYTES + (← readUInt tail (i + 20) 2) = tail.length
  else return false

/-- The last record below `i`. -/
def findEnd (tail : Bytes) : Nat → Except Fault (Option Nat)
  | 0 => .ok none
  | i + 1 => do if (← isEnd tail i) then return some i else findEnd tail i

/-- Whether the pairs from `position` on lead to one with a signature. -/
def hasSignature (pairs : Bytes) (position : Nat) : Except Fault Bool :=
  if position + 12 ≤ pairs.length then do
    let length ← readUInt pairs position 8
    if length < 4 ∨ pairs.length - position - 8 < length then return false
    else if (← readUInt pairs (position + 8) 4) ∈ SIGNATURE_SCHEME_IDS then return true
    else hasSignature pairs (position + 8 + length)
  else .ok false
termination_by pairs.length - position

/-- The block that ends in front of the directory. -/
def blockStart (read : Int → Int → Except Fault Bytes) (directoryOffset : Nat) :
    Except Fault (Option Int) := do
  let footer ← read (directoryOffset - SIGNING_BLOCK_FOOTER_BYTES) SIGNING_BLOCK_FOOTER_BYTES
  if footer.drop 8 ≠ SIGNING_BLOCK_MAGIC then return none
  else
    let blockSize ← readUInt footer 0 8
    if blockSize < SIGNING_BLOCK_FOOTER_BYTES ∨ directoryOffset < blockSize + 8 then return none
    else
      let start : Int := directoryOffset - blockSize - 8
      let pairs ← read start (blockSize + 8 - SIGNING_BLOCK_FOOTER_BYTES)
      if (← readUInt pairs 0 8) ≠ blockSize then return none
      else if (← hasSignature pairs 8) then return some start
      else return none

def signingBlockOffset (size : Nat) (read : Int → Int → Except Fault Bytes) :
    Except Fault (Option Int) := do
  if size < EOCD_MIN_BYTES then return none
  else
    let searched := min size EOCD_SEARCH_BYTES
    let tail ← read (size - searched) searched
    match ← findEnd tail (tail.length + 1 - EOCD_MIN_BYTES) with
    | none => return none
    | some eocd =>
        let directoryOffset ← readUInt tail (eocd + 16) 4
        if directoryOffset = 0xffffffff ∨ directoryOffset < SIGNING_BLOCK_FOOTER_BYTES + 8 then
          return none
        else blockStart read directoryOffset

end Stim.SignedTail
