import Mathlib.Algebra.GroupWithZero.Nat
import Stim.Cli.SignedTail.Location

/-!
# Archives of the signature scheme

An archive is its entries, the signing block, the central directory and the end record with a
comment.  Its block is located unless a later end record stands in the comment.
-/

namespace Stim.SignedTail

open CheckedReads

/-- An archive with a signing block, not ZIP64. -/
structure Archive where
  entries : Bytes
  /-- the identifiers with their values -/
  pairs : List (Nat × Bytes)
  directory : Bytes
  /-- the numbers of disks and entries, and the directory's size -/
  counts : Bytes
  comment : Bytes
  ids : ∀ pair ∈ pairs, pair.1 < 2 ^ 32
  counts_length : counts.length = 12
  comment_length : comment.length < 2 ^ 16
  not_zip64 : entries.length + (32 + (pairs.map fun pair => 12 + pair.2.length).sum) < 2 ^ 32 - 1

namespace Archive

def pairBytes (pair : Nat × Bytes) : Bytes :=
  bytesLE 8 (4 + pair.2.length) ++ (bytesLE 4 pair.1 ++ pair.2)

variable (archive : Archive)

def pairsBytes : Bytes := archive.pairs.flatMap pairBytes

/-- The size that stands at both ends of the block, which does not count the first of them. -/
def blockSize : Nat := archive.pairsBytes.length + SIGNING_BLOCK_FOOTER_BYTES

def directoryOffset : Nat := archive.entries.length + (8 + archive.blockSize)

def endRecord : Bytes :=
  bytesLE 4 EOCD_SIGNATURE ++ (archive.counts ++ (bytesLE 4 archive.directoryOffset ++
    (bytesLE 2 archive.comment.length ++ archive.comment)))

def bytes : Bytes :=
  archive.entries ++ (bytesLE 8 archive.blockSize ++ (archive.pairsBytes ++
    (bytesLE 8 archive.blockSize ++ (SIGNING_BLOCK_MAGIC ++
      (archive.directory ++ archive.endRecord)))))

/-- Where the archive's own end record stands. -/
def endOffset : Nat := archive.directoryOffset + archive.directory.length

/-- A pair holds a signature. -/
def Signed : Prop := ∃ pair ∈ archive.pairs, pair.1 ∈ SIGNATURE_SCHEME_IDS

/-- No end record in the comment ends where the file does. -/
def LastRecord : Prop := ∀ later, archive.endOffset < later → ¬ EndRecord archive.bytes later

variable {archive}

theorem length_pairsBytes :
    archive.pairsBytes.length = (archive.pairs.map fun pair => 12 + pair.2.length).sum := by
  rw [pairsBytes, List.length_flatMap]
  congr 1
  apply List.map_congr_left
  intro pair _
  simp [pairBytes]
  omega

theorem directoryOffset_lt : archive.directoryOffset < 2 ^ 32 - 1 := by
  have h := archive.not_zip64
  rw [← length_pairsBytes] at h
  rw [directoryOffset, blockSize, SIGNING_BLOCK_FOOTER_BYTES]
  omega

/-- The pairs lead to a signature wherever they stand. -/
theorem signatureReached {pairs : List (Nat × Bytes)} (hIds : ∀ pair ∈ pairs, pair.1 < 2 ^ 32)
    (hSize : (pairs.flatMap pairBytes).length < 2 ^ 32)
    (hSigned : ∃ pair ∈ pairs, pair.1 ∈ SIGNATURE_SCHEME_IDS) {data rest : Bytes} {position : Nat}
    (hData : data.drop position = pairs.flatMap pairBytes ++ rest) :
    SignatureReached data (position + (pairs.flatMap pairBytes).length) position := by
  induction pairs generalizing position with
  | nil => obtain ⟨_, h, -⟩ := hSigned; cases h
  | cons pair pairs ih =>
      have hBound : position + (pairBytes pair).length + (pairs.flatMap pairBytes).length =
          position + ((pair :: pairs).flatMap pairBytes).length := by
        rw [List.flatMap_cons, List.length_append]
        omega
      have hPair : (pairBytes pair).length = 12 + pair.2.length := by
        simp [pairBytes]
        omega
      rw [List.flatMap_cons, List.length_append, hPair] at hSize
      rw [List.flatMap_cons, List.append_assoc] at hData
      have hRest := drop_field hData rfl
      rw [pairBytes, List.append_assoc, List.append_assoc] at hData
      have hLength : readLE data position 8 = some (4 + pair.2.length) :=
        readLE_field hData (by decide) (by omega)
      have hId : readLE data (position + 8) 4 = some pair.1 :=
        readLE_field (drop_field hData (length_bytesLE _ _)) (by decide)
          (hIds pair List.mem_cons_self)
      by_cases hScheme : pair.1 ∈ SIGNATURE_SCHEME_IDS
      · exact .here hLength (by omega) (by omega) hId hScheme
      · obtain ⟨other, hOther, hOtherScheme⟩ := hSigned
        have hMem : other ∈ pairs := by
          rcases List.mem_cons.mp hOther with rfl | hMem
          · exact absurd hOtherScheme hScheme
          · exact hMem
        have hNext := ih (fun pair hMem => hIds pair (List.mem_cons_of_mem _ hMem)) (by omega)
          ⟨other, hMem, hOtherScheme⟩ hRest
        rw [hBound, show position + (pairBytes pair).length = position + 8 + (4 + pair.2.length) by
          omega] at hNext
        exact .next hLength (by omega) (by omega) hNext

/-- What stands in front of the directory. -/
structure Fields (archive : Archive) : Prop where
  head : ∃ rest, archive.bytes.drop archive.entries.length = bytesLE 8 archive.blockSize ++ rest
  pairs : ∃ rest, archive.bytes.drop (archive.entries.length + 8) = archive.pairsBytes ++ rest
  footer : ∃ rest, archive.bytes.drop (archive.directoryOffset - SIGNING_BLOCK_FOOTER_BYTES) =
    bytesLE 8 archive.blockSize ++ rest
  magic : ∃ rest, archive.bytes.drop (archive.directoryOffset - 16) = SIGNING_BLOCK_MAGIC ++ rest
  endRecord : archive.bytes.drop archive.endOffset = archive.endRecord

theorem fields (archive : Archive) : Fields archive := by
  have hStart : archive.bytes.drop archive.entries.length = _ := List.drop_left
  have hPairs := drop_field hStart (length_bytesLE _ _)
  have hFooter := drop_field hPairs rfl
  have hMagic := drop_field hFooter (length_bytesLE _ _)
  have hDirectory := drop_field hMagic (show SIGNING_BLOCK_MAGIC.length = 16 from rfl)
  have hEnd := drop_field hDirectory rfl
  have hOffset : archive.directoryOffset =
      archive.entries.length + 8 + archive.pairsBytes.length + 24 := by
    rw [directoryOffset, blockSize, SIGNING_BLOCK_FOOTER_BYTES]
    omega
  constructor
  · exact ⟨_, hStart⟩
  · exact ⟨_, hPairs⟩
  · rw [hOffset]
    exact ⟨_, hFooter⟩
  · rw [hOffset]
    exact ⟨_, hMagic⟩
  · rw [endOffset, hOffset]
    exact hEnd

theorem block (hSigned : archive.Signed) :
    Block archive.bytes archive.directoryOffset archive.entries.length := by
  have hSmall := archive.directoryOffset_lt
  have hSpans : archive.entries.length + 8 + archive.blockSize = archive.directoryOffset := by
    rw [directoryOffset]
    omega
  have hSize : archive.blockSize = archive.pairsBytes.length + SIGNING_BLOCK_FOOTER_BYTES := rfl
  obtain ⟨⟨_, hHead⟩, ⟨_, hPairs⟩, ⟨_, hFooter⟩, ⟨_, hMagic⟩, -⟩ := fields archive
  have hLimit : archive.entries.length + 8 + archive.pairsBytes.length =
      archive.directoryOffset - SIGNING_BLOCK_FOOTER_BYTES := by omega
  have hMagicLength := congrArg List.length hMagic
  rw [List.length_drop, List.length_append] at hMagicLength
  constructor
  · exact ⟨archive.blockSize, by omega, hSpans, readLE_field hHead (by decide) (by omega),
      readLE_field hFooter (by decide) (by omega)⟩
  · refine slice_field hMagic rfl ?_
    have hLength : SIGNING_BLOCK_MAGIC.length = 16 := rfl
    omega
  · rw [← hLimit]
    exact signatureReached archive.ids (by rw [← pairsBytes]; omega) hSigned hPairs

theorem endRecord_endOffset (archive : Archive) : EndRecord archive.bytes archive.endOffset ∧
    readLE archive.bytes (archive.endOffset + 16) 4 = some archive.directoryOffset := by
  have hSmall := archive.directoryOffset_lt
  have hRecord := (fields archive).endRecord
  have hLength := congrArg List.length hRecord
  rw [List.length_drop] at hLength
  simp only [endRecord, List.length_append, length_bytesLE, archive.counts_length] at hLength
  rw [endRecord] at hRecord
  have hCounts := drop_field hRecord (length_bytesLE _ _)
  have hDirectory := drop_field hCounts archive.counts_length
  have hComment := drop_field hDirectory (length_bytesLE _ _)
  refine ⟨⟨readLE_field hRecord (by decide) (by decide), archive.comment.length, ?_, ?_⟩, ?_⟩
  · exact readLE_field hComment (by decide) archive.comment_length
  · rw [EOCD_MIN_BYTES]
    omega
  · exact readLE_field hDirectory (by decide) (by omega)

end Archive

/-- On any bytes the search ends without a read past a buffer or a negative one, and it answers
with a located block alone; it answers with the block of every signed archive whose own end record
is the last one. -/
theorem search_total_and_exact (file : Bytes) :
    (∀ fault, signingBlockOffset file.length (apkRead file) = .error fault → fault = .shortRead) ∧
    (∀ offset : Int, signingBlockOffset file.length (apkRead file) = .ok (some offset) →
      ∃ start : Nat, offset = start ∧ Located file start) ∧
    ∀ archive : Archive, archive.bytes = file → archive.Signed → archive.LastRecord →
      signingBlockOffset file.length (apkRead file) = .ok (some archive.entries.length) := by
  have hEnds := signingBlockOffset_ends file
  refine ⟨fun fault h => ?_, fun offset h => ?_, ?_⟩
  · rw [h] at hEnds
    exact hEnds
  · rw [h] at hEnds
    exact hEnds offset rfl
  · rintro archive rfl hSigned hLast
    obtain ⟨hRecord, hDirectory⟩ := Archive.endRecord_endOffset archive
    have hSmall := archive.directoryOffset_lt
    exact signingBlockOffset_last hRecord hLast hDirectory (by omega)
      (Archive.block hSigned)

/-! ## Two archives -/

/-- An archive of a single signature, with a comment. -/
def signedArchive (comment : Bytes) (h : comment.length < 2 ^ 16) : Archive where
  entries := [1, 2, 3]
  pairs := [(0x42726577, [0]), (0x7109871a, [9, 9])]
  directory := [4]
  counts := List.replicate 12 0
  comment := comment
  ids := by simp
  counts_length := rfl
  comment_length := h
  not_zip64 := by decide

theorem signedArchive_signed (comment : Bytes) (h : comment.length < 2 ^ 16) :
    (signedArchive comment h).Signed := ⟨(0x7109871a, [9, 9]), by simp [signedArchive], by decide⟩

/-- A comment that is an end record itself. -/
def recordComment : Bytes := bytesLE 4 EOCD_SIGNATURE ++ List.replicate 18 0

/-- The end record in a comment hides the archive's own one. -/
theorem signedArchive_hidden :
    (signedArchive recordComment (by decide)).Signed ∧
      signingBlockOffset (signedArchive recordComment (by decide)).bytes.length
        (apkRead (signedArchive recordComment (by decide)).bytes) = .ok none :=
  ⟨signedArchive_signed _ _, by decide +kernel⟩

/-- An archive's block is found behind its entries. -/
theorem signedArchive_found :
    signingBlockOffset (signedArchive [7] (by decide)).bytes.length
      (apkRead (signedArchive [7] (by decide)).bytes) = .ok (some 3) := by
  refine (search_total_and_exact _).2.2 (signedArchive [7] (by decide)) rfl
    (signedArchive_signed _ _) ?_
  intro later hLater hRecord
  have hFits := endRecord_fits hRecord
  have hSize : (signedArchive [7] (by decide)).bytes.length =
    (signedArchive [7] (by decide)).endOffset + 1 + EOCD_MIN_BYTES := by decide +kernel
  obtain rfl : later = (signedArchive [7] (by decide)).endOffset + 1 := by omega
  have hOther : readLE (signedArchive [7] (by decide)).bytes
    ((signedArchive [7] (by decide)).endOffset + 1) 4 ≠ some EOCD_SIGNATURE := by decide +kernel
  exact hOther hRecord.1

end Stim.SignedTail
