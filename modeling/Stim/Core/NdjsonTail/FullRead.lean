import Stim.Core.NdjsonTail

/-!
# The tail of a log and a full read

A call leaves of each generation what a full read of its file would leave: the length and the
first bytes of its complete lines, and their records.  That holds when a reader that cannot go on
with a file notices it, which its length or its first bytes must show.

A file that is truncated and then written again to the length that was read, with the same first
bytes, is not noticed.
-/

namespace Stim.Logs.NdjsonTail

variable {ρ : Type} (parse : List Char → Option (Parsed ρ))

/-- The bytes of a file that a call reads: its complete lines. -/
def covered (file : LogFile) : List UInt8 := Lines.through Utf8.newline file.bytes

/-- The bytes of a file that the reader remembers. -/
def head (file : LogFile) : List UInt8 := (covered file).take HEAD_BYTES

/-- What a reader knows of a file that it read to its last complete line. -/
def readTo : Option LogFile → Generation ρ
  | none => generation
  | some file =>
      ⟨some (fileId file), (covered file).length, head file, recordsOf parse file.bytes⟩

/-- The reader can go on from one content to the other, or sees that it cannot. -/
def Noticed (old new : LogFile) : Prop :=
  covered old <+: new.bytes ∨ new.bytes.length < (covered old).length ∨ ¬ head old <+: new.bytes

theorem readAt_head (file : LogFile) (prefixed : List UInt8) :
    readAt file prefixed.length 0 = prefixed ↔ prefixed <+: file.bytes := by
  rw [List.prefix_iff_eq_take, readAt, List.drop_zero]
  exact eq_comm

theorem rest_covered (file : LogFile) : Lines.rest Utf8.newline (covered file) = [] :=
  Lines.rest_through _

theorem recordsOf_covered (file : LogFile) :
    recordsOf parse (covered file) = recordsOf parse file.bytes :=
  recordsOf_through parse _

/-! ## One generation -/

/-- What a reader knows after complete lines of the file with an inode number. -/
def knows (ino : Nat) (bytes : List UInt8) : Generation ρ :=
  ⟨some ino, bytes.length, bytes.take HEAD_BYTES, recordsOf parse bytes⟩

theorem readTo_some (file : LogFile) :
    readTo parse (some file) = knows parse (fileId file) (covered file) := by
  rw [knows, recordsOf_covered]
  rfl

theorem head_grows (read buffer : List UInt8) :
    grown (read.take HEAD_BYTES) buffer = (read ++ buffer).take HEAD_BYTES := by
  rw [grown, List.length_take]
  split_ifs with hshort
  · rw [List.take_of_length_le (show read.length ≤ HEAD_BYTES by omega)]
  · rw [List.take_append_of_le_length (by omega)]

variable {file : LogFile}

/-- Reading on from complete lines knows the lines after them too. -/
theorem readOn_knows {read ys : List UInt8} (hlines : Lines.rest Utf8.newline read = [])
    (hbytes : file.bytes = read ++ ys) (ino : Nat) (changed : Bool) :
    readOn parse (knows parse ino read) changed file =
      (knows parse ino (covered file),
        changed || !(recordsOf parse (Lines.through Utf8.newline ys)).isEmpty) := by
  have hcovered : covered file = read ++ Lines.through Utf8.newline ys := by
    rw [covered, hbytes, Lines.through_append hlines]
  have hlength : file.bytes.length - read.length = ys.length := by
    rw [hbytes, List.length_append]
    omega
  have hread : readAt file ys.length read.length = ys := by
    rw [readAt, hbytes, List.drop_left, List.take_length]
  unfold readOn
  dsimp only [knows]
  rw [hlength, hread, hcovered]
  by_cases hempty : Lines.through Utf8.newline ys = []
  · simp [hempty, recordsOf_eq]
  · have hys : ys.length ≠ 0 := fun h => hempty (by rw [List.length_eq_zero_iff.mp h]; rfl)
    rw [if_neg hys, if_neg hempty, head_grows, recordsOf_append parse hlines, List.length_append]
    rfl

theorem of_not_replaced {ino : Nat} {read : List UInt8}
    (h : ¬ Replaced (knows parse ino read) file) :
    ino = file.ino ∧ read.length ≤ file.bytes.length ∧ read.take HEAD_BYTES <+: file.bytes := by
  simp only [Replaced, knows, not_or, not_and, not_not, fileId, Option.some.injEq, readAt_head,
    ne_eq] at h
  obtain ⟨hino, hlength, hhead⟩ := h
  refine ⟨hino, by omega, ?_⟩
  by_cases hnone : read.take HEAD_BYTES = []
  · rw [hnone]
    exact List.nil_prefix
  · exact hhead (List.length_pos_of_ne_nil hnone)

/-- A generation that starts again is read whole. -/
theorem advance_replaced {gen : Generation ρ} (h : Replaced gen file) :
    advance parse gen (some file) =
      (readTo parse (some file),
        gen.id.isSome || !gen.records.isEmpty || !(recordsOf parse file.bytes).isEmpty) := by
  have hread := readOn_knows parse (rfl : Lines.rest Utf8.newline [] = [])
    (List.nil_append file.bytes).symm (fileId file) (gen.id.isSome || !gen.records.isEmpty)
  rw [recordsOf_through, ← readTo_some] at hread
  show ite _ _ _ = _
  rw [if_pos h]
  exact hread

/-- A generation that goes on is read to its end. -/
theorem advance_same {before file : LogFile} (h : ¬ Replaced (readTo parse (some before)) file)
    (hNoticed : before.ino = file.ino → Noticed before file) :
    ∃ ys, file.bytes = covered before ++ ys ∧
      advance parse (readTo parse (some before)) (some file) =
        (readTo parse (some file), !(recordsOf parse ys).isEmpty) := by
  have hkept := h
  rw [readTo_some] at hkept
  obtain ⟨hino, hlength, hhead⟩ := of_not_replaced parse hkept
  obtain ⟨ys, hys⟩ : covered before <+: file.bytes := by
    obtain hprefix | hshort | hdiffers := hNoticed hino
    · exact hprefix
    · omega
    · exact absurd hhead hdiffers
  refine ⟨ys, hys.symm, ?_⟩
  show ite _ _ _ = _
  have hsame : fileId before = fileId file := hino
  rw [if_neg h, readTo_some, readOn_knows parse (rest_covered before) hys.symm,
    recordsOf_through, readTo_some, hsame, Bool.false_or]

/-- A call goes on with a generation or starts again on it; both read its file whole. -/
theorem advance_readTo {old new : Option LogFile}
    (hNoticed : ∀ before ∈ old, ∀ now ∈ new, before.ino = now.ino → Noticed before now) :
    (advance parse (readTo parse old) new).1 = readTo parse new ∧
      ((advance parse (readTo parse old) new).2 = false →
        readGeneration parse new = readGeneration parse old) := by
  cases new with
  | none =>
      refine ⟨rfl, fun hunchanged => ?_⟩
      cases old with
      | none => rfl
      | some before => cases hunchanged
  | some file =>
      cases old with
      | none =>
          rw [advance_replaced parse (by simp [Replaced, readTo, generation])]
          refine ⟨rfl, fun hunchanged => ?_⟩
          simpa [readTo, generation, readGeneration] using hunchanged
      | some before =>
          by_cases hreplaced : Replaced (readTo parse (some before)) file
          · rw [advance_replaced parse hreplaced]
            exact ⟨rfl, fun hunchanged => by cases hunchanged⟩
          · obtain ⟨ys, hys, hadvance⟩ := advance_same parse hreplaced
              (hNoticed before rfl file rfl)
            rw [hadvance]
            refine ⟨rfl, fun hunchanged => ?_⟩
            have hnone : recordsOf parse ys = [] := by simpa using hunchanged
            show recordsOf parse file.bytes = recordsOf parse before.bytes
            rw [hys, recordsOf_append parse (rest_covered before), recordsOf_covered, hnone,
              List.append_nil]

/-! ## Both generations -/

def Directory.files (directory : Directory) : List LogFile :=
  directory.rotated.toList ++ directory.current.toList

theorem mem_files {directory : Directory} :
    file ∈ directory.files ↔ file ∈ directory.rotated ∨ file ∈ directory.current := by
  simp [Directory.files]

/-- What a call needs: a file that has the inode number of one that was read before is seen to be
another one by the bytes that the reader remembers of that; a file that was cut since it was read
is shorter than what was read of it, or is seen by those bytes too. -/
def Noticeable (s : Watched ρ) : Action → Prop
  | .call => ∀ old ∈ s.last.files, ∀ new ∈ s.directory.files, old.ino = new.ino →
      if old.serial = new.serial then
        covered old <+: new.bytes ∨ new.bytes.length < (covered old).length ∨
          ¬ head old <+: new.bytes
      else head old = [] ∨ ¬ head old <+: new.bytes
  | _ => True

instance (s : Watched ρ) (action : Action) : Decidable (Noticeable s action) := by
  cases action <;> unfold Noticeable <;> infer_instance

/-- The reader knows the directory as the last call read it. -/
structure Follows (s : Watched ρ) : Prop where
  rotated_eq : s.tail.rotated = readTo parse s.last.rotated
  current_eq : s.tail.current = readTo parse s.last.current
  all_eq : s.tail.all = readNdjsonGenerations parse s.last

theorem follows_fresh : Follows parse (fresh : Watched ρ) := ⟨rfl, rfl, rfl⟩

theorem head_eq_nil (h : head file = []) : covered file = [] := by
  rw [head, List.take_eq_nil_iff] at h
  exact h.resolve_left (by decide)

variable {s : Watched ρ}

theorem noticed_of_noticeable (h : Noticeable s .call) {old new : LogFile}
    (hold : old ∈ s.last.files) (hnew : new ∈ s.directory.files) (hino : old.ino = new.ino) :
    Noticed old new := by
  have hpair := h old hold new hnew hino
  split_ifs at hpair with hserial
  · exact hpair
  · obtain hnone | hdiffers := hpair
    · refine Or.inl ?_
      rw [head_eq_nil hnone]
      exact List.nil_prefix
    · exact Or.inr (Or.inr hdiffers)

/-- What the current generation was read to goes with the file that was renamed. -/
theorem moved_readTo {tail : Tail ρ} {last : Directory} (directory : Directory)
    (hrotated : tail.rotated = readTo parse last.rotated)
    (hcurrent : tail.current = readTo parse last.current) :
    (moved tail directory).rotated =
        readTo parse (if Renamed tail directory then last.current else last.rotated) ∧
      (moved tail directory).current =
        readTo parse (if Renamed tail directory then none else last.current) := by
  unfold moved
  split_ifs with hrenamed
  · exact ⟨hcurrent, rfl⟩
  · exact ⟨hrotated, hcurrent⟩

theorem read_follows (h : Follows parse s) (hNoticeable : Noticeable s .call) :
    Follows parse { s with last := s.directory, tail := read parse s.tail s.directory } := by
  obtain ⟨hrotated, hcurrent⟩ :=
    moved_readTo parse s.directory h.rotated_eq h.current_eq
  have hRotatedNoticed : ∀ before ∈ (if Renamed s.tail s.directory then s.last.current
      else s.last.rotated), ∀ now ∈ s.directory.rotated, before.ino = now.ino →
        Noticed before now := by
    intro before hbefore now hnow
    refine noticed_of_noticeable hNoticeable (mem_files.mpr ?_) (mem_files.mpr (Or.inl hnow))
    split_ifs at hbefore
    · exact Or.inr hbefore
    · exact Or.inl hbefore
  have hCurrentNoticed : ∀ before ∈ (if Renamed s.tail s.directory then none
      else s.last.current), ∀ now ∈ s.directory.current, before.ino = now.ino →
        Noticed before now := by
    intro before hbefore now hnow
    refine noticed_of_noticeable hNoticeable (mem_files.mpr (Or.inr ?_))
      (mem_files.mpr (Or.inr hnow))
    exact (Option.ite_none_left_eq_some.mp hbefore).2
  have hr := advance_readTo parse hRotatedNoticed
  have hc := advance_readTo parse hCurrentNoticed
  rw [← hrotated] at hr
  rw [← hcurrent] at hc
  refine ⟨hr.1, hc.1, ?_⟩
  show ite _ _ _ = _
  have hrecords : ∀ file, (readTo parse file).records = readGeneration parse file := by
    intro file
    cases file <;> rfl
  split_ifs with hchanged
  · rw [hr.1, hc.1, hrecords, hrecords]
    simp [readNdjsonGenerations]
  · -- nothing changed, so what the call before returned is still right
    rw [not_or, not_or, Bool.not_eq_true, Bool.not_eq_true] at hchanged
    obtain ⟨hstays, hrotatedSame, hcurrentSame⟩ := hchanged
    have hsameRotated := hr.2 hrotatedSame
    have hsameCurrent := hc.2 hcurrentSame
    rw [if_neg hstays] at hsameRotated hsameCurrent
    rw [h.all_eq]
    simp [readNdjsonGenerations, hsameRotated, hsameCurrent]

/-! ## Runs -/

theorem step_follows {s t : Watched ρ} {action : Action} (h : Follows parse s)
    (hNoticeable : Noticeable s action) (hStep : step parse s action = some t) :
    Follows parse t := by
  cases action with
  | append path bytes =>
      obtain ⟨file, -, rfl⟩ := Option.map_eq_some_iff.mp hStep
      exact ⟨h.rotated_eq, h.current_eq, h.all_eq⟩
  | rename =>
      obtain ⟨file, -, rfl⟩ := Option.map_eq_some_iff.mp hStep
      exact ⟨h.rotated_eq, h.current_eq, h.all_eq⟩
  | create ino =>
      obtain ⟨-, hsome⟩ := Option.ite_none_right_eq_some.mp hStep
      cases hsome
      exact ⟨h.rotated_eq, h.current_eq, h.all_eq⟩
  | delete path =>
      cases hStep
      exact ⟨h.rotated_eq, h.current_eq, h.all_eq⟩
  | truncate path length =>
      obtain ⟨file, -, hcut⟩ := Option.bind_eq_some_iff.mp hStep
      obtain ⟨-, hsome⟩ := Option.ite_none_right_eq_some.mp hcut
      cases hsome
      exact ⟨h.rotated_eq, h.current_eq, h.all_eq⟩
  | call =>
      cases hStep
      exact read_follows parse h hNoticeable

theorem run_last_call {actions : List Action}
    (hRun : Machine.run (step parse) fresh (actions ++ [.call]) = some s) :
    s.last = s.directory := by
  obtain ⟨u, -, hcall⟩ := Machine.run_append.mp hRun
  cases hcall
  rfl

/-- Whatever happens to the two files between its calls, each call of a reader returns what a full
read returns, when a file with a known inode number that does not go on from what was read is
shorter than that or differs within the bytes that the reader remembers. -/
theorem tail_eq_readNdjsonGenerations {s : Watched ρ} {actions : List Action}
    (hRun : Machine.run (step parse) fresh (actions ++ [.call]) = some s)
    (hNoticeable : Machine.Meets (step parse) Noticeable fresh (actions ++ [.call])) :
    s.tail.all = readNdjsonGenerations parse s.directory := by
  have hFollows : Follows parse s :=
    Machine.invariant_run_meets (P := Follows parse)
      (fun _ _ _ h hCond hStep => step_follows parse h hCond hStep)
      (follows_fresh parse) hRun hNoticeable
  rw [hFollows.all_eq, run_last_call parse hRun]

/-- The texts of records that hold one message of letters and digits. -/
def parseMessage (text : List Char) : Option (Parsed NdjsonRecord) :=
  let opening := "\x7b\"msg\":\"".toList
  let closing := "\"\x7d".toList
  let message := (text.drop opening.length).dropLast.dropLast
  if text = opening ++ message ++ closing ∧ message.all Char.isAlphanum then
    some (.object (OrderedMap.empty.set "msg" (.str (String.ofList message))))
  else none

def messageLine (message : String) : List UInt8 :=
  Utf8.encode ("\x7b\"msg\":\"".toList ++ message.toList ++ "\"\x7d\n".toList)

/-- A log is read in the middle of a line, rotated twice between two calls, and its first inode
number goes to a new file, which is cut. -/
def rotatedTwice : List Action :=
  [.create 1, .append .current (messageLine "one"), .append .current ((messageLine "two").take 5),
    .call, .append .current ((messageLine "two").drop 5), .rename, .call, .create 2,
    .append .current (messageLine "three"), .rename, .create 1,
    .append .current (messageLine "four"), .append .current (messageLine "five"), .call,
    .truncate .current 15]

theorem tail_eq_rotatedTwice : ∃ s,
    Machine.run (step parseMessage) fresh (rotatedTwice ++ [.call]) = some s ∧
      s.tail.all.length = 2 ∧
      s.tail.all = readNdjsonGenerations parseMessage s.directory :=
  ⟨_, rfl, by decide +kernel, tail_eq_readNdjsonGenerations parseMessage
    (show Machine.run (step parseMessage) fresh (rotatedTwice ++ [.call]) = some _ from rfl)
    (by decide +kernel)⟩

/-- A file with a known inode number that is another one differs within the bytes that the reader
remembers; nothing is asked of a file that was cut. -/
def ReusedDiffers (s : Watched ρ) : Action → Prop
  | .call => ∀ old ∈ s.last.files, ∀ new ∈ s.directory.files, old.ino = new.ino →
      old.serial ≠ new.serial → ¬ head old <+: new.bytes
  | _ => True

instance (s : Watched ρ) (action : Action) : Decidable (ReusedDiffers s action) := by
  cases action <;> unfold ReusedDiffers <;> infer_instance

/-- A log is cut to nothing and written again to its length between two calls, with the same first
64 bytes. -/
def rewritten : List Action :=
  let message := String.ofList (List.replicate 60 'a')
  [.create 1, .append .current (messageLine (message ++ "1")), .call, .truncate .current 0,
    .append .current (messageLine (message ++ "2"))]

theorem not_tail_eq_rewritten : ¬ ∀ (actions : List Action) (s : Watched NdjsonRecord),
    Machine.run (step parseMessage) fresh (actions ++ [.call]) = some s →
      Machine.Meets (step parseMessage) ReusedDiffers fresh (actions ++ [.call]) →
      s.tail.all = readNdjsonGenerations parseMessage s.directory := by
  intro h
  have hsame := congrArg (List.map OrderedMap.entries) (h rewritten _ rfl (by decide +kernel))
  exact absurd hsame (by decide +kernel)

end Stim.Logs.NdjsonTail
