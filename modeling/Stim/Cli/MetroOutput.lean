import Stim.Lib.Machine
import Stim.Lib.Utf8

/-!
# A Metro child's output

A Metro child appends to one file per stream, and outlives the stimd that started it.  A stimd
follows the files (`tailChildOutput` of `packages/stim-cli/src/stimd/metro/child-server.ts`),
decodes each chunk that it reads and hands complete lines on (`createLineReader` of
`packages/stim-cli/src/process-output.ts`).  When it ends, `closeMetroChildren` of
`metro/children.ts` stores how far it read, and the next one's `adoptAt` reads on from there.

A chunk is decoded on its own and a line that is not complete is kept in one stimd only, so the
lines are those of the streams in every chain whose reads end between characters and whose
hand-overs stand at the end of a line.
-/

namespace Stim.Cli

inductive OutputStream
  | stdout | stderr
  deriving DecidableEq

instance {p : OutputStream → Prop} [DecidablePred p] : Decidable (∀ stream, p stream) :=
  decidable_of_iff (p .stdout ∧ p .stderr)
    ⟨fun h => fun | .stdout => h.1 | .stderr => h.2, fun h => ⟨h _, h _⟩⟩

/-- A line without the carriage return that ends it. -/
def dropReturn (line : List Char) : List Char :=
  if line.getLast? = some '\r' then line.dropLast else line

/-- What a line reader passes on of a chunk, and what it keeps. -/
def pushChunk (buffered chunk : List Char) : List (List Char) × List Char :=
  ((Lines.complete '\n' (buffered ++ chunk)).map dropReturn, Lines.rest '\n' (buffered ++ chunk))

/-- How far a stimd has read a stream's file, and the line that its reader keeps. -/
structure Follower where
  offset : Nat
  buffered : List Char
  deriving DecidableEq

/-- One read of a stream's file. -/
def readOutput (file : List UInt8) (follower : Follower) : List (List Char) × Follower :=
  let offset := if file.length < follower.offset then 0 else follower.offset
  if file.length = offset then ([], { follower with offset })
  else
    let pushed := pushChunk follower.buffered (Utf8.decode (file.drop offset))
    (pushed.1, ⟨file.length, pushed.2⟩)

/-- The streams' files, the stimd that follows them, and the lines passed to `toRecord` over the
whole chain. -/
structure MetroOutput where
  files : OutputStream → List UInt8
  followers : OutputStream → Follower
  passed : OutputStream → List (List Char)

def MetroOutput.init : MetroOutput where
  files := fun _ => []
  followers := fun _ => ⟨0, []⟩
  passed := fun _ => []

def MetroOutput.read (output : MetroOutput) (stream : OutputStream) : MetroOutput :=
  let next := readOutput (output.files stream) (output.followers stream)
  { output with
    followers := Function.update output.followers stream next.2
    passed := Function.update output.passed stream (output.passed stream ++ next.1) }

inductive OutputAction
  /-- The child writes. -/
  | append (stream : OutputStream) (piece : List UInt8)
  /-- A poll reads a stream. -/
  | poll (stream : OutputStream)
  /-- The stimd ends, after its last read of the streams that it could read, and the next one
  reads on from its offsets. -/
  | handOver (read : List OutputStream)
  deriving DecidableEq

def MetroOutput.step (output : MetroOutput) : OutputAction → Option MetroOutput
  | .append stream piece => some
      { output with files := Function.update output.files stream (output.files stream ++ piece) }
  | .poll stream => some (output.read stream)
  | .handOver read =>
      let last := read.foldl MetroOutput.read output
      some { last with followers := fun stream => ⟨(last.followers stream).offset, []⟩ }

/-- The complete lines of a stream. -/
def completeLines (bytes : List UInt8) : List (List Char) :=
  (Lines.complete '\n' (Utf8.decode bytes)).map dropReturn

/-- The bytes of a stream that the chain has read. -/
def MetroOutput.bytesRead (output : MetroOutput) (stream : OutputStream) : List UInt8 :=
  (output.files stream).take (output.followers stream).offset

/-- The lines passed on are those of what was read. -/
def MetroOutput.Exact (output : MetroOutput) : Prop :=
  ∀ stream, output.passed stream = completeLines (output.bytesRead stream)

/-- No character is cut at the end of the bytes. -/
def WholeCharacters (bytes : List UInt8) : Prop := (Utf8.feed none bytes).1 = none

/-- The bytes end where a line does. -/
def WholeLines (bytes : List UInt8) : Prop := bytes = [] ∨ bytes.getLast? = some Utf8.newline

/-- A read ends between characters, and a hand-over stands at the end of a line. -/
def MetroOutput.Cautious (output : MetroOutput) : OutputAction → Prop
  | .append _ _ => True
  | .poll stream => WholeCharacters (output.files stream)
  | .handOver read => ∀ stream,
      if stream ∈ read then WholeLines (output.files stream)
      else WholeLines (output.bytesRead stream)

instance (bytes : List UInt8) : Decidable (WholeCharacters bytes) :=
  inferInstanceAs (Decidable (_ = _))

instance (bytes : List UInt8) : Decidable (WholeLines bytes) :=
  inferInstanceAs (Decidable (_ ∨ _))

instance (output : MetroOutput) (action : OutputAction) : Decidable (output.Cautious action) :=
  match action with
  | .append _ _ => isTrue trivial
  | .poll stream => inferInstanceAs (Decidable (WholeCharacters (output.files stream)))
  | .handOver read => inferInstanceAs (Decidable (∀ stream,
      if stream ∈ read then WholeLines (output.files stream)
      else WholeLines (output.bytesRead stream)))

/-! ## What a read keeps -/

theorem wholeCharacters_of_wholeLines {bytes : List UInt8} (h : WholeLines bytes) :
    WholeCharacters bytes := by
  rcases h with rfl | hlast
  · rfl
  · obtain ⟨front, rfl⟩ := List.getLast?_eq_some_iff.mp hlast
    rw [WholeCharacters, Utf8.feed_append, Utf8.feed_newline]
    rfl

theorem rest_of_wholeLines {bytes : List UInt8} (h : WholeLines bytes) :
    Lines.rest '\n' (Utf8.decode bytes) = [] := by
  rcases h with rfl | hlast
  · rfl
  · obtain ⟨front, rfl⟩ := List.getLast?_eq_some_iff.mp hlast
    rw [Utf8.decode_newline, Lines.rest_line]
    rfl

/-- What is passed on and kept of a stream is what its bytes so far give. -/
structure FollowsStream (file : List UInt8) (follower : Follower) (passed : List (List Char)) :
    Prop where
  within : follower.offset ≤ file.length
  passed_eq : passed = completeLines (file.take follower.offset)
  buffered_eq : follower.buffered = Lines.rest '\n' (Utf8.decode (file.take follower.offset))
  whole : WholeCharacters (file.take follower.offset)

variable {file : List UInt8} {follower : Follower} {passed : List (List Char)}

theorem FollowsStream.append (h : FollowsStream file follower passed) (piece : List UInt8) :
    FollowsStream (file ++ piece) follower passed := by
  have htake : (file ++ piece).take follower.offset = file.take follower.offset :=
    List.take_append_of_le_length h.within
  refine ⟨Nat.le_trans h.within (by simp), ?_, ?_, ?_⟩
  · rw [htake]
    exact h.passed_eq
  · rw [htake]
    exact h.buffered_eq
  · rw [htake]
    exact h.whole

theorem FollowsStream.read (h : FollowsStream file follower passed) (hwhole : WholeCharacters file) :
    (readOutput file follower).2.offset = file.length ∧
      FollowsStream file (readOutput file follower).2 (passed ++ (readOutput file follower).1) := by
  unfold readOutput
  rw [if_neg (Nat.not_lt.mpr h.within)]
  dsimp only
  by_cases hend : file.length = follower.offset
  · rw [if_pos hend, List.append_nil]
    exact ⟨hend.symm, h⟩
  · rw [if_neg hend]
    have htext : Utf8.decode (file.take follower.offset) ++ Utf8.decode (file.drop follower.offset) =
        Utf8.decode file := by
      rw [← Utf8.decode_append h.whole, List.take_append_drop]
    refine ⟨rfl, Nat.le_refl _, ?_, ?_, ?_⟩
    · show passed ++ (Lines.complete '\n' (follower.buffered ++ _)).map dropReturn = _
      rw [List.take_length, h.passed_eq, h.buffered_eq, completeLines, completeLines, ← htext,
        Lines.complete_append (Utf8.decode (file.take follower.offset)), List.map_append]
    · show Lines.rest '\n' (follower.buffered ++ _) = _
      rw [List.take_length, h.buffered_eq, ← htext, ← Lines.rest_append]
    · rw [List.take_length]
      exact hwhole

/-- A hand-over at the end of a line loses nothing. -/
theorem FollowsStream.handOver (h : FollowsStream file follower passed)
    (hline : WholeLines (file.take follower.offset)) :
    FollowsStream file ⟨follower.offset, []⟩ passed :=
  ⟨h.within, h.passed_eq, (rest_of_wholeLines hline).symm, h.whole⟩

/-! ## Chains -/

def MetroOutput.Follows (output : MetroOutput) : Prop :=
  ∀ stream, FollowsStream (output.files stream) (output.followers stream) (output.passed stream)

theorem follows_init : MetroOutput.init.Follows :=
  fun _ => ⟨Nat.le_refl _, rfl, rfl, rfl⟩

theorem MetroOutput.Follows.read {output : MetroOutput} (h : output.Follows)
    {stream : OutputStream} (hwhole : WholeCharacters (output.files stream)) :
    (output.read stream).Follows ∧
      (output.read stream).bytesRead stream = output.files stream := by
  obtain ⟨hend, hread⟩ := (h stream).read hwhole
  refine ⟨?_, ?_⟩
  · intro other
    by_cases hsame : other = stream
    · subst hsame
      simpa [MetroOutput.read] using hread
    · simpa [MetroOutput.read, Function.update_of_ne hsame] using h other
  · simp [MetroOutput.read, MetroOutput.bytesRead, hend]

/-- The last reads of a stimd. -/
theorem MetroOutput.Follows.reads {output : MetroOutput} (h : output.Follows)
    {read : List OutputStream} (hwhole : ∀ stream ∈ read, WholeCharacters (output.files stream)) :
    (read.foldl MetroOutput.read output).Follows ∧
      ∀ stream, (read.foldl MetroOutput.read output).bytesRead stream =
        if stream ∈ read then output.files stream else output.bytesRead stream := by
  induction read generalizing output with
  | nil => exact ⟨h, fun stream => by simp⟩
  | cons first read ih =>
      obtain ⟨hfollows, hfirst⟩ := h.read (hwhole first List.mem_cons_self)
      obtain ⟨hlast, hbytes⟩ := ih hfollows fun stream hstream =>
        hwhole stream (List.mem_cons_of_mem _ hstream)
      refine ⟨hlast, ?_⟩
      intro stream
      rw [List.foldl_cons, hbytes stream]
      by_cases hmem : stream ∈ read
      · rw [if_pos hmem, if_pos (List.mem_cons_of_mem _ hmem)]
        rfl
      · rw [if_neg hmem]
        by_cases hsame : stream = first
        · subst hsame
          rw [if_pos List.mem_cons_self]
          exact hfirst
        · rw [if_neg (by simp [hsame, hmem])]
          simp [MetroOutput.read, MetroOutput.bytesRead, Function.update_of_ne hsame]

theorem step_follows {output next : MetroOutput} {action : OutputAction} (h : output.Follows)
    (hcautious : output.Cautious action) (hstep : output.step action = some next) :
    next.Follows := by
  cases action with
  | append stream piece =>
      cases hstep
      intro other
      by_cases hsame : other = stream
      · subst hsame
        simpa using (h other).append piece
      · simpa [Function.update_of_ne hsame] using h other
  | poll stream =>
      cases hstep
      exact (h.read hcautious).1
  | handOver read =>
      cases hstep
      have hlines : ∀ stream ∈ read, WholeLines (output.files stream) := by
        intro stream hmem
        have hline := hcautious stream
        rwa [if_pos hmem] at hline
      obtain ⟨hfollows, hbytes⟩ := h.reads fun stream hmem =>
        wholeCharacters_of_wholeLines (hlines stream hmem)
      intro stream
      refine (hfollows stream).handOver ?_
      show WholeLines ((read.foldl MetroOutput.read output).bytesRead stream)
      rw [hbytes stream]
      have hline := hcautious stream
      split_ifs at hline ⊢
      · exact hline
      · exact hline

/-- In every chain whose reads end between characters and whose hand-overs stand at the end of a
line, the lines passed on of each stream are the complete lines of what was read of it, and the
next read passes on the rest. -/
theorem passes_completeLines (actions : List OutputAction) (output : MetroOutput)
    (hrun : Machine.run MetroOutput.step MetroOutput.init actions = some output)
    (hcautious : Machine.Meets MetroOutput.step MetroOutput.Cautious MetroOutput.init actions) :
    output.Exact ∧ ∀ stream, WholeCharacters (output.files stream) →
      (output.read stream).passed stream = completeLines (output.files stream) := by
  have hfollows : output.Follows :=
    Machine.invariant_run_meets (fun _ _ _ => step_follows) follows_init hrun hcautious
  refine ⟨fun stream => (hfollows stream).passed_eq, ?_⟩
  intro stream hwhole
  obtain ⟨hread, hbytes⟩ := hfollows.read hwhole
  rw [(hread stream).passed_eq]
  exact congrArg completeLines hbytes

/-- A line of two characters, the second one of two bytes, is polled, and a second stimd takes
over. -/
def handedOverOutput : List OutputAction :=
  [.append .stdout (Utf8.encode "né".toList), .poll .stdout, .append .stdout [0x0a],
    .handOver [.stdout, .stderr], .append .stdout (Utf8.encode "ok\n".toList), .poll .stdout]

theorem passes_completeLines_handedOver :
    ∃ output, Machine.run MetroOutput.step MetroOutput.init handedOverOutput = some output ∧
      output.Exact ∧ output.passed .stdout = ["né".toList, "ok".toList] := by
  have hmeets : Machine.Meets MetroOutput.step MetroOutput.Cautious MetroOutput.init
      handedOverOutput := by
    decide +kernel
  obtain ⟨output, hrun⟩ : ∃ output,
      Machine.run MetroOutput.step MetroOutput.init handedOverOutput = some output := ⟨_, rfl⟩
  refine ⟨output, hrun, (passes_completeLines _ _ hrun hmeets).1, ?_⟩
  cases hrun
  decide +kernel

/-- A poll cuts a character in two, and a hand-over cuts a line. -/
theorem not_passes_completeLines :
    (∃ output, Machine.run MetroOutput.step MetroOutput.init
        [.append .stdout [0xc3], .poll .stdout, .append .stdout [0xa9, 0x0a], .poll .stdout] =
          some output ∧
      output.files .stdout = Utf8.encode "é\n".toList ∧
      output.bytesRead .stdout = output.files .stdout ∧
      completeLines (output.files .stdout) = ["é".toList] ∧
      output.passed .stdout = [[Utf8.replacement, Utf8.replacement]]) ∧
    ∃ output, Machine.run MetroOutput.step MetroOutput.init
        [.append .stdout (Utf8.encode "on".toList), .handOver [.stdout, .stderr],
          .append .stdout (Utf8.encode "e\n".toList), .poll .stdout] = some output ∧
      output.bytesRead .stdout = output.files .stdout ∧
      completeLines (output.files .stdout) = ["one".toList] ∧
      output.passed .stdout = ["e".toList] := by
  refine ⟨⟨_, rfl, ?_⟩, ⟨_, rfl, ?_⟩⟩
  · decide +kernel
  · decide +kernel

end Stim.Cli
