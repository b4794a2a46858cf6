import Stim.Cli.SignedTail

/-!
# What a located signing block is

`Block` says where a signing block stands in front of a directory, `EndRecord` what points to the
directory.  The search answers with a block's start exactly when both agree, and ends with nothing
but an answer or the read's own error.
-/

namespace Stim.SignedTail

open CheckedReads

variable {file tail pairs data part : Bytes} {α β : Type}

/-- An end-of-central-directory record whose comment ends where the bytes do. -/
def EndRecord (data : Bytes) (i : Nat) : Prop :=
  readLE data i 4 = some EOCD_SIGNATURE ∧
    ∃ comment, readLE data (i + 20) 2 = some comment ∧ i + EOCD_MIN_BYTES + comment = data.length

/-- Well-formed pairs lead from a position to one of a signature, up to a limit. -/
inductive SignatureReached (data : Bytes) (limit : Nat) : Nat → Prop
  | here {position length id : Nat} (hLength : readLE data position 8 = some length)
      (hLow : 4 ≤ length) (hLimit : position + 8 + length ≤ limit)
      (hId : readLE data (position + 8) 4 = some id) (hScheme : id ∈ SIGNATURE_SCHEME_IDS) :
      SignatureReached data limit position
  | next {position length : Nat} (hLength : readLE data position 8 = some length)
      (hLow : 4 ≤ length) (hLimit : position + 8 + length ≤ limit)
      (hRest : SignatureReached data limit (position + 8 + length)) :
      SignatureReached data limit position

/-- A signing block from `start` to the directory. -/
structure Block (file : Bytes) (directory start : Nat) : Prop where
  agrees : ∃ size, SIGNING_BLOCK_FOOTER_BYTES ≤ size ∧ start + 8 + size = directory ∧
    readLE file start 8 = some size ∧
    readLE file (directory - SIGNING_BLOCK_FOOTER_BYTES) 8 = some size
  magic : slice file (directory - 16) 16 = some SIGNING_BLOCK_MAGIC
  signed : SignatureReached file (directory - SIGNING_BLOCK_FOOTER_BYTES) (start + 8)

/-- A signing block in front of the directory that an end record points to. -/
def Located (file : Bytes) (start : Nat) : Prop :=
  ∃ eocd directory, EndRecord file eocd ∧ readLE file (eocd + 16) 4 = some directory ∧
    Block file directory start

/-! ## Calls that end -/

/-- A call that answers, or throws the read's own error. -/
def Ends (post : α → Prop) : Except Fault α → Prop
  | .ok answer => post answer
  | .error fault => fault = .shortRead

theorem Ends.bind {P : α → Prop} {Q : β → Prop} {call : Except Fault α}
    {next : α → Except Fault β} (h : Ends P call)
    (hNext : ∀ answer, P answer → Ends Q (next answer)) : Ends Q (call >>= next) := by
  cases call with
  | ok answer => exact hNext answer h
  | error fault => exact h

@[simp] theorem ok_bind (answer : α) (next : α → Except Fault β) :
    ((.ok answer : Except Fault α) >>= next) = next answer := rfl

theorem readUInt_eq {offset width n : Nat} (h : readLE data offset width = some n) :
    readUInt data offset width = .ok n := by
  rw [readUInt, h]

theorem readUInt_ends {offset width : Nat} (h : offset + width ≤ data.length) :
    Ends (fun n => readLE data offset width = some n) (readUInt data offset width) := by
  obtain ⟨n, hn, -⟩ := readLE_isSome offset width h
  rw [readUInt_eq hn]
  exact hn

theorem apkRead_eq {position length : Nat} (h : slice file position length = some part) :
    apkRead file position length = .ok part := by
  rw [apkRead, if_neg (by omega)]
  simp only [Int.toNat_natCast, h]

theorem apkRead_ends (position length : Nat) :
    Ends (fun part => slice file position length = some part) (apkRead file position length) := by
  rw [apkRead, if_neg (by omega)]
  simp only [Int.toNat_natCast]
  cases h : slice file position length with
  | none => rfl
  | some part => rfl

theorem slice_length {start size : Nat} (h : slice file start size = some part) :
    part.length = size ∧ start + size ≤ file.length := by
  unfold slice at h
  split_ifs at h with hSize
  obtain rfl := Option.some.inj h
  rw [List.length_take, List.length_drop]
  omega

/-! ## The end record -/

theorem isEnd_spec (tail : Bytes) (i : Nat) (h : i + EOCD_MIN_BYTES ≤ tail.length) :
    ∃ found, isEnd tail i = .ok found ∧ (found = true ↔ EndRecord tail i) := by
  rw [EOCD_MIN_BYTES] at h
  obtain ⟨signature, hSignature, -⟩ := readLE_isSome i 4 (show _ ≤ tail.length by omega)
  obtain ⟨comment, hComment, -⟩ := readLE_isSome (i + 20) 2 (show _ ≤ tail.length by omega)
  rw [isEnd, readUInt_eq hSignature]
  by_cases hEnd : signature = EOCD_SIGNATURE
  · refine ⟨decide (i + EOCD_MIN_BYTES + comment = tail.length), ?_, ?_⟩
    · rw [readUInt_eq hComment]
      simp only [ok_bind, hEnd, if_true]
      rfl
    · simp [EndRecord, hSignature, hComment, hEnd]
  · refine ⟨false, ?_, ?_⟩
    · simp only [ok_bind, hEnd, if_false]
      rfl
    · simp [EndRecord, hSignature, hEnd]

theorem findEnd_ends {k : Nat} (h : k + EOCD_MIN_BYTES ≤ tail.length + 1) :
    Ends (fun found => ∀ i, found = some i → EndRecord tail i) (findEnd tail k) := by
  induction k with
  | zero => exact fun i hi => nomatch hi
  | succ i ih =>
      obtain ⟨found, hFound, hRecord⟩ := isEnd_spec tail i (by omega)
      rw [findEnd, hFound]
      cases found with
      | true =>
          intro j hj
          obtain rfl := Option.some.inj hj
          exact hRecord.mp rfl
      | false => exact ih (by omega)

/-- The record is found that no later one stands behind. -/
theorem findEnd_last {k i : Nat} (h : k + EOCD_MIN_BYTES ≤ tail.length + 1) (hi : i < k)
    (hRecord : EndRecord tail i) (hLast : ∀ j, i < j → j < k → ¬ EndRecord tail j) :
    findEnd tail k = .ok (some i) := by
  induction k with
  | zero => omega
  | succ k ih =>
      obtain ⟨found, hFound, hIff⟩ := isEnd_spec tail k (by omega)
      rw [findEnd, hFound]
      by_cases hHere : i = k
      · obtain rfl := hHere
        rw [hIff.mpr hRecord]
        rfl
      · have hNot : found = false := by
          apply Bool.eq_false_iff.mpr
          intro hTrue
          exact hLast k (by omega) (by omega) (hIff.mp hTrue)
        rw [hNot]
        exact ih (by omega) (by omega) fun j hj hjk => hLast j hj (by omega)

/-- A record of the tail is one of the file. -/
theorem endRecord_tail {start size i : Nat} (h : slice file start size = some tail)
    (hEnd : start + size = file.length) (hi : i + EOCD_MIN_BYTES ≤ size) :
    EndRecord tail i ↔ EndRecord file (start + i) := by
  rw [EOCD_MIN_BYTES] at hi
  obtain ⟨hSize, -⟩ := slice_length h
  unfold EndRecord
  rw [readLE_slice h (by omega), readLE_slice h (by omega), Nat.add_assoc]
  simp only [EOCD_MIN_BYTES]
  constructor
  · rintro ⟨hSignature, comment, hComment, hLength⟩
    exact ⟨hSignature, comment, hComment, by omega⟩
  · rintro ⟨hSignature, comment, hComment, hLength⟩
    exact ⟨hSignature, comment, hComment, by omega⟩

/-! ## The pairs -/

theorem hasSignature_ends (position : Nat) :
    Ends (fun found => found = true → SignatureReached pairs pairs.length position)
      (hasSignature pairs position) := by
  induction hLeft : pairs.length - position using Nat.strong_induction_on generalizing position with
  | _ left ih =>
      rw [hasSignature]
      split_ifs with hMore
      · apply (readUInt_ends (by omega)).bind
        intro length hLength
        split_ifs with hStop
        · exact fun h => nomatch h
        apply (readUInt_ends (by omega)).bind
        intro id hId
        split_ifs with hScheme
        · exact fun _ => .here hLength (by omega) (by omega) hId hScheme
        have hRest := ih _ (by omega) (position + 8 + length) rfl
        cases hCall : hasSignature pairs (position + 8 + length) with
        | ok found =>
            rw [hCall] at hRest
            exact fun h => .next hLength (by omega) (by omega) (hRest h)
        | error fault =>
            rw [hCall] at hRest
            exact hRest
      · exact fun h => nomatch h

theorem hasSignature_reached {position : Nat} (h : SignatureReached pairs pairs.length position) :
    hasSignature pairs position = .ok true := by
  induction h with
  | @here position length id hLength hLow hLimit hId hScheme =>
      rw [hasSignature, if_pos (by omega), readUInt_eq hLength, readUInt_eq hId]
      simp only [ok_bind]
      rw [if_neg (by omega), if_pos hScheme]
      rfl
  | @next position length hLength hLow hLimit hRest ih =>
      rw [hasSignature, if_pos (by omega), readUInt_eq hLength]
      obtain ⟨id, hId, -⟩ := readLE_isSome (position + 8) 4 (show _ ≤ pairs.length by omega)
      rw [readUInt_eq hId]
      simp only [ok_bind]
      rw [if_neg (by omega), ih]
      split_ifs <;> rfl

/-- Pairs of a part are pairs of the file. -/
theorem signatureReached_slice {start size position : Nat} (h : slice file start size = some part) :
    SignatureReached part size position ↔
      SignatureReached file (start + size) (start + position) := by
  constructor
  · intro hReached
    induction hReached with
    | here hLength hLow hLimit hId hScheme =>
        rw [readLE_slice h (by omega)] at hLength hId
        exact .here hLength hLow (by omega) hId hScheme
    | next hLength hLow hLimit hRest ih =>
        rw [readLE_slice h (by omega)] at hLength
        exact .next hLength hLow (by omega) (by simpa only [Nat.add_assoc] using ih)
  · intro hReached
    generalize hAt : start + position = shifted at hReached
    induction hReached generalizing position with
    | here hLength hLow hLimit hId hScheme =>
        subst hAt
        rw [Nat.add_assoc] at hId
        rw [← readLE_slice h (by omega)] at hLength hId
        exact .here hLength hLow (by omega) hId hScheme
    | next hLength hLow hLimit hRest ih =>
        subst hAt
        rw [← readLE_slice h (by omega)] at hLength
        exact .next hLength hLow (by omega) (ih (by omega))

/-! ## The block -/

section block

variable {directory start size : Nat}

/-- What stands in a footer stands in front of the directory. -/
theorem footer_fields {footer : Bytes} (hDirectory : SIGNING_BLOCK_FOOTER_BYTES + 8 ≤ directory)
    (h : slice file (directory - SIGNING_BLOCK_FOOTER_BYTES) SIGNING_BLOCK_FOOTER_BYTES =
      some footer) :
    readLE footer 0 8 = readLE file (directory - SIGNING_BLOCK_FOOTER_BYTES) 8 ∧
      slice file (directory - 16) 16 = some (footer.drop 8) := by
  obtain ⟨hSize, -⟩ := slice_length h
  have hInside : 8 + 16 ≤ SIGNING_BLOCK_FOOTER_BYTES := by decide
  have hMagic := slice_slice h hInside
  rw [SIGNING_BLOCK_FOOTER_BYTES] at hDirectory hSize
  constructor
  · exact readLE_slice h (by decide)
  · rw [SIGNING_BLOCK_FOOTER_BYTES, show directory - 24 + 8 = directory - 16 by omega] at hMagic
    rw [← hMagic, slice, if_pos (by omega), List.take_of_length_le]
    rw [List.length_drop]
    omega

/-- The pairs with the size in front of them, as the block's start and size place them. -/
theorem pairs_fields (hSize : SIGNING_BLOCK_FOOTER_BYTES ≤ size)
    (hSpans : start + 8 + size = directory)
    (h : slice file start (size + 8 - SIGNING_BLOCK_FOOTER_BYTES) = some pairs) :
    readLE pairs 0 8 = readLE file start 8 ∧
      (SignatureReached pairs pairs.length 8 ↔
        SignatureReached file (directory - SIGNING_BLOCK_FOOTER_BYTES) (start + 8)) := by
  rw [(slice_length h).1]
  rw [SIGNING_BLOCK_FOOTER_BYTES] at hSize h ⊢
  constructor
  · exact readLE_slice h (by omega)
  · rw [signatureReached_slice h, show start + (size + 8 - 24) = directory - 24 by omega]

theorem blockStart_ends (file : Bytes) (hDirectory : SIGNING_BLOCK_FOOTER_BYTES + 8 ≤ directory) :
    Ends (fun found => ∀ offset : Int, found = some offset →
        ∃ start : Nat, offset = start ∧ Block file directory start)
      (blockStart (apkRead file) directory) := by
  rw [blockStart, ← Int.ofNat_sub (by omega)]
  apply (apkRead_ends _ _).bind
  intro footer hFooter
  obtain ⟨hFooterSize, hMagic⟩ := footer_fields hDirectory hFooter
  obtain ⟨hFooterLength, -⟩ := slice_length hFooter
  split_ifs with hNoMagic
  · exact fun offset h => nomatch h
  apply (readUInt_ends (by rw [hFooterLength]; decide)).bind
  intro size hSize
  split_ifs with hBad
  · exact fun offset h => nomatch h
  obtain ⟨start, hStart⟩ : ∃ start, start + 8 + size = directory :=
    ⟨directory - size - 8, by omega⟩
  have hOffset : (directory : Int) - size - 8 = (start : Int) := by omega
  have hLength : (size : Int) + 8 - SIGNING_BLOCK_FOOTER_BYTES =
      ((size + 8 - SIGNING_BLOCK_FOOTER_BYTES : Nat) : Int) := by omega
  rw [hOffset, hLength]
  apply (apkRead_ends _ _).bind
  intro pairs hPairs
  obtain ⟨hHead, hReached⟩ := pairs_fields (by omega) hStart hPairs
  obtain ⟨hPairsLength, -⟩ := slice_length hPairs
  have hHeadFits : 0 + 8 ≤ pairs.length := by
    rw [hPairsLength]
    rw [SIGNING_BLOCK_FOOTER_BYTES] at hBad ⊢
    omega
  apply (readUInt_ends hHeadFits).bind
  intro headSize hHeadSize
  split_ifs with hOther
  · exact fun offset h => nomatch h
  apply (hasSignature_ends 8).bind
  intro found hFound
  split_ifs with hSigned
  · intro offset hSome
    refine ⟨start, (Option.some.inj hSome).symm, ?_⟩
    have hEqual : headSize = size := Classical.not_not.mp hOther
    exact {
      agrees := ⟨size, by omega, hStart, by rw [← hHead, hHeadSize, hEqual],
        by rw [← hFooterSize, hSize]⟩
      magic := by rw [hMagic, Classical.not_not.mp hNoMagic]
      signed := hReached.mp (hFound hSigned) }
  · exact fun offset h => nomatch h

theorem blockStart_of_block (hDirectory : SIGNING_BLOCK_FOOTER_BYTES + 8 ≤ directory)
    (h : Block file directory start) : blockStart (apkRead file) directory = .ok (some start) := by
  obtain ⟨size, hSize, hSpans, hHead, hFoot⟩ := h.agrees
  obtain ⟨-, hFits⟩ := slice_length h.magic
  have hFile : directory ≤ file.length := by omega
  have hInFooter : directory - SIGNING_BLOCK_FOOTER_BYTES + SIGNING_BLOCK_FOOTER_BYTES ≤
      file.length := by omega
  obtain ⟨footer, hFooter, -⟩ := slice_isSome hInFooter
  obtain ⟨hFooterSize, hMagic⟩ := footer_fields hDirectory hFooter
  have hEqual : footer.drop 8 = SIGNING_BLOCK_MAGIC := by
    rw [h.magic] at hMagic
    exact (Option.some.inj hMagic).symm
  obtain ⟨pairs, hPairs, -⟩ : ∃ pairs,
      slice file start (size + 8 - SIGNING_BLOCK_FOOTER_BYTES) = some pairs ∧ _ :=
    slice_isSome (by omega)
  obtain ⟨hPairsSize, hReached⟩ := pairs_fields hSize hSpans hPairs
  have hOffset : (directory : Int) - size - 8 = (start : Int) := by omega
  have hLength : (size : Int) + 8 - SIGNING_BLOCK_FOOTER_BYTES =
      ((size + 8 - SIGNING_BLOCK_FOOTER_BYTES : Nat) : Int) := by omega
  rw [blockStart, ← Int.ofNat_sub (by omega), apkRead_eq hFooter, ok_bind,
    if_neg (not_not.mpr hEqual), readUInt_eq (hFooterSize.trans hFoot), ok_bind,
    if_neg (by omega), hOffset, hLength]
  dsimp only
  rw [apkRead_eq hPairs, ok_bind, readUInt_eq (hPairsSize.trans hHead), ok_bind, if_neg (by simp),
    hasSignature_reached (hReached.mpr h.signed), ok_bind, if_pos rfl]
  rfl

end block

/-! ## The search of a file -/

/-- The last bytes of a file, in which the end record is searched. -/
theorem tail_slice (hSize : EOCD_MIN_BYTES ≤ file.length) :
    ∃ start size tail, min file.length EOCD_SEARCH_BYTES = size ∧ start + size = file.length ∧
      EOCD_MIN_BYTES ≤ size ∧ slice file start size = some tail := by
  have hLow : EOCD_MIN_BYTES ≤ EOCD_SEARCH_BYTES := by decide
  have hFits : file.length - min file.length EOCD_SEARCH_BYTES +
      min file.length EOCD_SEARCH_BYTES = file.length := by omega
  obtain ⟨tail, hTail, -⟩ := slice_isSome (Nat.le_of_eq hFits)
  exact ⟨_, _, tail, rfl, hFits, by omega, hTail⟩

/-- The search from the end record on. -/
theorem signingBlockOffset_eq {start size : Nat} (hStart : start + size = file.length)
    (hSearched : min file.length EOCD_SEARCH_BYTES = size) (hSize : EOCD_MIN_BYTES ≤ size)
    (hTail : slice file start size = some tail) :
    signingBlockOffset file.length (apkRead file) =
      (findEnd tail (tail.length + 1 - EOCD_MIN_BYTES) >>= fun
        | none => .ok none
        | some eocd => readUInt tail (eocd + 16) 4 >>= fun directoryOffset =>
            if directoryOffset = 0xffffffff ∨
              directoryOffset < SIGNING_BLOCK_FOOTER_BYTES + 8 then .ok none
            else blockStart (apkRead file) directoryOffset) := by
  have hOffset : (file.length : Int) - size = (start : Int) := by omega
  rw [signingBlockOffset, if_neg (by omega)]
  dsimp only
  rw [hSearched, hOffset, apkRead_eq hTail, ok_bind]
  rfl

theorem endRecord_fits {i : Nat} (h : EndRecord data i) : i + EOCD_MIN_BYTES ≤ data.length := by
  obtain ⟨-, comment, -, hEnd⟩ := h
  omega

/-- The search ends with an answer or the read's own error, and answers with a located block. -/
theorem signingBlockOffset_ends (file : Bytes) :
    Ends (fun found => ∀ offset : Int, found = some offset →
        ∃ start : Nat, offset = start ∧ Located file start)
      (signingBlockOffset file.length (apkRead file)) := by
  by_cases hSmall : file.length < EOCD_MIN_BYTES
  · rw [signingBlockOffset, if_pos hSmall]
    exact fun offset h => nomatch h
  obtain ⟨start, size, tail, hSearched, hStart, hSize, hTail⟩ :=
    tail_slice (Nat.le_of_not_lt hSmall)
  obtain ⟨hLength, -⟩ := slice_length hTail
  rw [signingBlockOffset_eq hStart hSearched hSize hTail]
  apply (findEnd_ends (by omega)).bind
  intro found hFound
  cases found with
  | none => exact fun offset h => nomatch h
  | some eocd =>
      have hRecord := hFound eocd rfl
      have hFits := endRecord_fits hRecord
      rw [EOCD_MIN_BYTES] at hFits
      apply (readUInt_ends (by omega)).bind
      intro directory hDirectory
      split_ifs with hNone
      · exact fun offset h => nomatch h
      have hBlock := blockStart_ends file (show _ ≤ directory by omega)
      cases hCall : blockStart (apkRead file) directory with
      | error fault =>
          rw [hCall] at hBlock
          exact hBlock
      | ok answer =>
          rw [hCall] at hBlock
          intro offset hOffset
          obtain ⟨block, rfl, hLocated⟩ := hBlock offset hOffset
          rw [readLE_slice hTail (by omega), ← Nat.add_assoc] at hDirectory
          exact ⟨block, rfl, start + eocd, directory,
            (endRecord_tail hTail hStart (by rw [EOCD_MIN_BYTES]; omega)).mp hRecord, hDirectory,
            hLocated⟩

/-- A block is found whose end record is the last of the file. -/
theorem signingBlockOffset_last {eocd directory block : Nat} (hRecord : EndRecord file eocd)
    (hLast : ∀ later, eocd < later → ¬ EndRecord file later)
    (hDirectory : readLE file (eocd + 16) 4 = some directory) (hZip64 : directory ≠ 0xffffffff)
    (hBlock : Block file directory block) :
    signingBlockOffset file.length (apkRead file) = .ok (some block) := by
  have hFits := endRecord_fits hRecord
  have hLarge : EOCD_MIN_BYTES ≤ file.length := by omega
  obtain ⟨start, size, tail, hSearched, hStart, hSize, hTail⟩ := tail_slice hLarge
  obtain ⟨hLength, -⟩ := slice_length hTail
  -- the record is not farther from the end than its comment can be long
  obtain ⟨i, rfl⟩ : ∃ i, eocd = start + i := by
    obtain ⟨-, comment, hComment, hEnd⟩ := hRecord
    have hShort := readLE_lt hComment
    have hWindow : EOCD_SEARCH_BYTES = EOCD_MIN_BYTES + 65535 := rfl
    exact ⟨eocd - start, by omega⟩
  have hTailRecord : EndRecord tail i := (endRecord_tail hTail hStart (by omega)).mpr hRecord
  have hTailLast : ∀ j, i < j → j < tail.length + 1 - EOCD_MIN_BYTES → ¬ EndRecord tail j := by
    intro j hj hLater hEnd
    exact hLast (start + j) (by omega) ((endRecord_tail hTail hStart (by omega)).mp hEnd)
  have hRead : readLE tail (i + 16) 4 = some directory := by
    rw [EOCD_MIN_BYTES] at hFits
    rw [readLE_slice hTail (by omega), ← Nat.add_assoc, hDirectory]
  obtain ⟨blockSize, hBlockSize, hSpans, -⟩ := hBlock.agrees
  rw [signingBlockOffset_eq hStart hSearched hSize hTail,
    findEnd_last (by omega) (by omega) hTailRecord hTailLast, ok_bind]
  dsimp only
  rw [readUInt_eq hRead, ok_bind, if_neg (by omega), blockStart_of_block (by omega) hBlock]

end Stim.SignedTail
