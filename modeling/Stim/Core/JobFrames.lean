import Mathlib.Data.List.GetD
import Stim.Lib.BigEndian

/-!
# The frames of an offload job's pipe

`jobFrame` and `JobFrameReader` of `packages/core/noise-session.ts`.  A frame is a length of four
bytes, the message's type and its body; the reader keeps the bytes of a frame that is not whole.
A chunk that makes `push` throw loses the frames that it had completed, and the reader keeps the
frame that it threw at.

Buffers are lists of bytes here, so nothing is said about frames that share a chunk's memory.
-/

namespace Stim.JobFrames

def NOISE_TEXT : UInt8 := 1

def NOISE_BINARY : UInt8 := 2

def MAX_SERVER_MESSAGE_BYTES : Nat := 16 * 1024 * 1024

def MAX_JOB_FRAME_BYTES : Nat := MAX_SERVER_MESSAGE_BYTES + 1

/-- A message of the pipe. -/
structure Frame where
  data : List UInt8
  binary : Bool
  deriving DecidableEq, Repr

def typeOf (binary : Bool) : UInt8 := if binary then NOISE_BINARY else NOISE_TEXT

/-- `none` where `writeUInt32BE` throws. -/
def jobFrame (frame : Frame) : Option (List UInt8) :=
  if frame.data.length + 1 < 256 ^ 4 then
    some (BigEndian.bytes 4 (frame.data.length + 1) ++ [typeOf frame.binary] ++ frame.data)
  else none

/-- The frames of a list of messages, one after the other. -/
def jobFrames (frames : List Frame) : Option (List UInt8) :=
  (frames.mapM jobFrame).map List.flatten

structure JobFrameReader where
  buffered : List UInt8 := []
  deriving DecidableEq, Repr

/-- The loop of `push`: the frames, or what it throws, and the bytes that stay buffered. -/
def readFrames (buffered : List UInt8) : Except String (List Frame) × List UInt8 :=
  if 4 ≤ buffered.length then
    let length := BigEndian.value (buffered.take 4)
    if length < 1 ∨ MAX_JOB_FRAME_BYTES < length then
      (.error s!"A job frame of {length} bytes", buffered)
    else if buffered.length < 4 + length then (.ok [], buffered)
    else
      let type := buffered.getD 4 0
      if type ≠ NOISE_TEXT ∧ type ≠ NOISE_BINARY then
        (.error s!"A job frame of type {type}", buffered)
      else
        let (frames, rest) := readFrames (buffered.drop (4 + length))
        (frames.map (⟨(buffered.take (4 + length)).drop 5, type == NOISE_BINARY⟩ :: ·), rest)
  else (.ok [], buffered)
termination_by buffered.length
decreasing_by simp only [List.length_drop]; omega

namespace JobFrameReader

def push (reader : JobFrameReader) (chunk : List UInt8) :
    Except String (List Frame) × JobFrameReader :=
  let (frames, rest) := readFrames (reader.buffered ++ chunk)
  (frames, ⟨rest⟩)

/-- `partial`: part of a frame is still unread. -/
def isPartial (reader : JobFrameReader) : Bool := 0 < reader.buffered.length

/-- Chunks that are pushed one after the other, until one makes `push` throw. -/
def pushAll (reader : JobFrameReader) :
    List (List UInt8) → Except String (List Frame) × JobFrameReader
  | [] => (.ok [], reader)
  | chunk :: chunks =>
      match reader.push chunk with
      | (.error thrown, reader) => (.error thrown, reader)
      | (.ok frames, reader) =>
          let (more, reader) := pushAll reader chunks
          (more.map (frames ++ ·), reader)

end JobFrameReader

/-! ## What is read is what was written -/

variable {frames : List Frame} {frame : Frame}

theorem jobFrames_cons {bytes rest : List UInt8} (hframe : jobFrame frame = some bytes)
    (hframes : jobFrames frames = some rest) :
    jobFrames (frame :: frames) = some (bytes ++ rest) := by
  obtain ⟨each, heach, rfl⟩ := Option.map_eq_some_iff.mp hframes
  rw [jobFrames, List.mapM_cons, hframe, heach]
  rfl

theorem of_jobFrames_cons {stream : List UInt8} (h : jobFrames (frame :: frames) = some stream) :
    ∃ bytes rest, jobFrame frame = some bytes ∧ jobFrames frames = some rest ∧
      stream = bytes ++ rest := by
  obtain ⟨each, heach, rfl⟩ := Option.map_eq_some_iff.mp h
  rw [List.mapM_cons] at heach
  obtain ⟨bytes, hbytes, heach⟩ := Option.bind_eq_some_iff.mp heach
  obtain ⟨rest, hrest, heach⟩ := Option.bind_eq_some_iff.mp heach
  cases heach
  exact ⟨bytes, rest.flatten, hbytes, by rw [jobFrames, hrest]; rfl, rfl⟩

/-- The parts of a frame. -/
theorem jobFrame_eq {bytes : List UInt8} (h : jobFrame frame = some bytes) :
    bytes.length = 5 + frame.data.length ∧
      BigEndian.value (bytes.take 4) = frame.data.length + 1 ∧
      bytes.getD 4 0 = typeOf frame.binary ∧ bytes.drop 5 = frame.data := by
  unfold jobFrame at h
  split at h
  case isFalse => cases h
  case isTrue hlength =>
    cases h
    have hheader := BigEndian.length_bytes 4 (frame.data.length + 1)
    refine ⟨?_, ?_, ?_, ?_⟩
    · simp only [List.length_append, hheader, List.length_singleton]
    · rw [List.append_assoc, List.take_left' hheader, BigEndian.value_bytes hlength]
    · rw [List.append_assoc, List.getD_append_right _ _ _ _ (by omega), hheader]
      rfl
    · exact List.drop_left' (by rw [List.length_append, hheader]; rfl)

theorem readFrames_nil : readFrames [] = (.ok [], []) := by
  unfold readFrames
  rfl

/-- The bytes before a frame's end are kept unread. -/
theorem readFrames_inside {bytes front : List UInt8} (h : jobFrame frame = some bytes)
    (hsize : frame.data.length ≤ MAX_SERVER_MESSAGE_BYTES) (hfront : front <+: bytes)
    (hlt : front.length < bytes.length) : readFrames front = (.ok [], front) := by
  obtain ⟨hlength, hvalue, -, -⟩ := jobFrame_eq h
  unfold readFrames
  split
  case isFalse => rfl
  case isTrue hheader =>
    obtain ⟨back, rfl⟩ := hfront
    rw [List.take_append_of_le_length hheader] at hvalue
    have hwithin : ¬ (BigEndian.value (front.take 4) < 1 ∨
        MAX_JOB_FRAME_BYTES < BigEndian.value (front.take 4)) := by
      rw [hvalue, MAX_JOB_FRAME_BYTES]
      omega
    simp only
    rw [if_neg hwithin, if_pos (by omega)]

theorem readFrames_frame {bytes : List UInt8} (h : jobFrame frame = some bytes)
    (hsize : frame.data.length ≤ MAX_SERVER_MESSAGE_BYTES) (rest : List UInt8) :
    readFrames (bytes ++ rest) =
      ((readFrames rest).1.map (frame :: ·), (readFrames rest).2) := by
  obtain ⟨hlength, hvalue, htype, hdata⟩ := jobFrame_eq h
  have hheader : 4 ≤ (bytes ++ rest).length := by
    rw [List.length_append]
    omega
  have hvalue' : BigEndian.value ((bytes ++ rest).take 4) = frame.data.length + 1 := by
    rw [List.take_append_of_le_length (by omega), hvalue]
  have htype' : (bytes ++ rest).getD 4 0 = typeOf frame.binary := by
    rw [List.getD_append _ _ _ _ (by omega), htype]
  have hend : 4 + (frame.data.length + 1) = bytes.length := by omega
  have hwithin : ¬ (frame.data.length + 1 < 1 ∨ MAX_JOB_FRAME_BYTES < frame.data.length + 1) := by
    rw [MAX_JOB_FRAME_BYTES]
    omega
  have hknown : ¬ (typeOf frame.binary ≠ NOISE_TEXT ∧ typeOf frame.binary ≠ NOISE_BINARY) := by
    cases frame.binary <;> decide
  have hbinary : (typeOf frame.binary == NOISE_BINARY) = frame.binary := by
    cases frame.binary <;> decide
  conv_lhs => unfold readFrames
  rw [if_pos hheader]
  simp only [hvalue', htype']
  rw [if_neg hwithin, if_neg (by rw [List.length_append]; omega), if_neg hknown, hend,
    List.drop_left, List.take_left, hdata, hbinary]

/-- The frames of a stream, and then what is read from the rest. -/
theorem readFrames_frames {stream : List UInt8} (h : jobFrames frames = some stream)
    (hsize : ∀ frame ∈ frames, frame.data.length ≤ MAX_SERVER_MESSAGE_BYTES) (rest : List UInt8) :
    readFrames (stream ++ rest) =
      ((readFrames rest).1.map (frames ++ ·), (readFrames rest).2) := by
  induction frames generalizing stream with
  | nil =>
      cases h
      cases hread : readFrames rest with
      | mk result left => cases result <;> simp [hread, Except.map]
  | cons frame frames ih =>
      obtain ⟨bytes, more, hframe, hframes, rfl⟩ := of_jobFrames_cons h
      rw [List.append_assoc, readFrames_frame hframe (hsize frame (by simp)),
        ih hframes fun other hother => hsize other (by simp [hother])]
      cases (readFrames rest).1 <;> rfl

/-- A whole frame of the buffer is the frame of the message that is read from it. -/
theorem jobFrame_read {buffered : List UInt8} {length : Nat} (hheader : 4 ≤ buffered.length)
    (hlength : BigEndian.value (buffered.take 4) = length)
    (hwithin : ¬ (length < 1 ∨ MAX_JOB_FRAME_BYTES < length))
    (hwhole : ¬ buffered.length < 4 + length)
    (hknown : ¬ (buffered.getD 4 0 ≠ NOISE_TEXT ∧ buffered.getD 4 0 ≠ NOISE_BINARY)) :
    jobFrame ⟨(buffered.take (4 + length)).drop 5, buffered.getD 4 0 == NOISE_BINARY⟩ =
      some (buffered.take (4 + length)) := by
  have hdata : ((buffered.take (4 + length)).drop 5).length + 1 = length := by
    rw [List.length_drop, List.length_take]
    omega
  have hbytes : BigEndian.bytes 4 length = buffered.take 4 := by
    have := BigEndian.bytes_value (buffered.take 4)
    rwa [List.length_take, Nat.min_eq_left hheader, hlength] at this
  have hlt : length < 256 ^ 4 := by
    have := BigEndian.value_lt (buffered.take 4)
    rwa [List.length_take, Nat.min_eq_left hheader, hlength] at this
  have htype : typeOf (buffered.getD 4 0 == NOISE_BINARY) = buffered.getD 4 0 := by
    by_cases hbinary : buffered.getD 4 0 = NOISE_BINARY
    · rw [hbinary]
      decide
    · have htext : buffered.getD 4 0 = NOISE_TEXT := by
        by_contra htext
        exact hknown ⟨htext, hbinary⟩
      rw [htext]
      decide
  have hsplit : buffered.take (4 + length) =
      buffered.take 4 ++ [buffered.getD 4 0] ++ (buffered.take (4 + length)).drop 5 := by
    have hfive : (buffered.take (4 + length)).take 5 = buffered.take 4 ++ [buffered.getD 4 0] := by
      rw [List.take_take, Nat.min_eq_left (by omega), List.take_succ_eq_append_getElem (by omega),
        List.getD_eq_getElem _ _ (by omega)]
    rw [← hfive, List.take_append_drop]
  simp only [jobFrame, hdata]
  rw [if_pos hlt, hbytes, htype]
  exact congrArg some hsplit.symm

/-- What was read is at the beginning of the buffer, as it would be written, within its size. -/
theorem readFrames_stream {buffered rest : List UInt8}
    (h : readFrames buffered = (.ok frames, rest)) :
    (∀ frame ∈ frames, frame.data.length ≤ MAX_SERVER_MESSAGE_BYTES) ∧
      ∃ stream, jobFrames frames = some stream ∧ stream ++ rest = buffered := by
  fun_induction readFrames buffered generalizing frames with
  | case1 => cases h
  | case2 => cases h; exact ⟨fun _ hframe => absurd hframe List.not_mem_nil, [], rfl, rfl⟩
  | case3 => cases h
  | case4 buffered hheader length hwithin hwhole type hknown read left hread =>
      rename_i ih
      cases read with
      | error => cases h
      | ok more =>
          cases h
          obtain ⟨hsize, stream, hstream, hbuffered⟩ := ih hread
          have hframe := jobFrame_read hheader rfl hwithin hwhole hknown
          constructor
          · intro frame hmem
            rcases List.mem_cons.mp hmem with rfl | hmem
            · show ((buffered.take (4 + length)).drop 5).length ≤ _
              rw [List.length_drop, List.length_take]
              unfold MAX_JOB_FRAME_BYTES at hwithin
              omega
            · exact hsize frame hmem
          · refine ⟨_, jobFrames_cons hframe hstream, ?_⟩
            rw [List.append_assoc, hbuffered, List.take_append_drop]
  | case5 => cases h; exact ⟨fun _ hframe => absurd hframe List.not_mem_nil, [], rfl, rfl⟩

/-- More bytes do not undo what was thrown. -/
theorem readFrames_throws {buffered rest : List UInt8} {thrown : String}
    (h : readFrames buffered = (.error thrown, rest)) (more : List UInt8) :
    (readFrames (buffered ++ more)).1 = .error thrown := by
  have hlonger : buffered.length ≤ (buffered ++ more).length := by
    rw [List.length_append]
    omega
  have htake : ∀ {n}, n ≤ buffered.length → (buffered ++ more).take n = buffered.take n :=
    fun hn => List.take_append_of_le_length hn
  fun_induction readFrames buffered with
  | case1 buffered hheader length hrefused =>
      cases h
      unfold readFrames
      simp only [htake hheader]
      rw [if_pos (by omega), if_pos hrefused]
  | case2 => cases h
  | case3 buffered hheader length hwithin hwhole type hunknown =>
      have htype : (buffered ++ more).getD 4 0 = buffered.getD 4 0 :=
        List.getD_append _ _ _ _ (by omega)
      cases h
      unfold readFrames
      simp only [htake hheader, htype]
      rw [if_pos (by omega), if_neg hwithin, if_neg (by omega), if_pos hunknown]
  | case4 buffered hheader length hwithin hwhole type hknown read left hread =>
      rename_i ih
      cases read with
      | ok => cases h
      | error =>
          cases h
          have htype : (buffered ++ more).getD 4 0 = buffered.getD 4 0 :=
            List.getD_append _ _ _ _ (by omega)
          have hdrop : (buffered ++ more).drop (4 + length) = buffered.drop (4 + length) ++ more :=
            List.drop_append_of_le_length (by omega)
          have hlater := ih hread (by rw [List.length_append]; omega)
            (fun hn => List.take_append_of_le_length hn)
          unfold readFrames
          simp only [htake hheader, htype]
          rw [if_pos (by omega), if_neg hwithin, if_neg (by omega), if_neg hknown, hdrop, hlater]
          rfl
  | case5 => cases h

/-! ## Chunks -/

namespace JobFrameReader

/-- The chunks of a buffer that is read without an error give its frames, however it is cut. -/
theorem pushAll_of_readFrames {reader : JobFrameReader} {chunks : List (List UInt8)}
    {frames : List Frame} {rest : List UInt8}
    (hstart : readFrames reader.buffered = (.ok [], reader.buffered))
    (h : readFrames (reader.buffered ++ chunks.flatten) = (.ok frames, rest)) :
    reader.pushAll chunks = (.ok frames, ⟨rest⟩) := by
  induction chunks generalizing reader frames with
  | nil =>
      rw [List.flatten_nil, List.append_nil, hstart] at h
      cases h
      rfl
  | cons chunk chunks ih =>
      rw [List.flatten_cons, ← List.append_assoc] at h
      cases hread : readFrames (reader.buffered ++ chunk) with
      | mk result left => cases result with
        | error thrown =>
            have hthrows := readFrames_throws hread chunks.flatten
            rw [h] at hthrows
            cases hthrows
        | ok first =>
            obtain ⟨hsize, stream, hstream, hbuffered⟩ := readFrames_stream hread
            have hleft : readFrames left = (.ok [], left) := by
              have hagain := readFrames_frames hstream hsize left
              rw [hbuffered, hread] at hagain
              cases hleft : readFrames left with
              | mk result last => cases result with
                | error => rw [hleft] at hagain; cases hagain
                | ok more =>
                    rw [hleft] at hagain
                    obtain ⟨hfirst, rfl⟩ := Prod.mk.inj hagain
                    have hnone : more = [] := by simpa [Except.map] using hfirst
                    rw [hnone]
            rw [← hbuffered, List.append_assoc, readFrames_frames hstream hsize] at h
            cases hmore : readFrames (left ++ chunks.flatten) with
            | mk result last => cases result with
              | error => rw [hmore] at h; cases h
              | ok more =>
                  rw [hmore] at h
                  cases h
                  have hrest : pushAll ⟨left⟩ chunks = (.ok more, ⟨last⟩) := ih hleft hmore
                  simp only [pushAll, push, hread, hrest]
                  rfl

/-- What a reader returned, written again, and the bytes that it keeps are what it was given. -/
theorem stream_of_pushAll {reader last : JobFrameReader} {chunks : List (List UInt8)}
    {frames : List Frame} (h : reader.pushAll chunks = (.ok frames, last)) :
    ∃ stream, jobFrames frames = some stream ∧
      stream ++ last.buffered = reader.buffered ++ chunks.flatten := by
  induction chunks generalizing reader frames with
  | nil =>
      cases h
      exact ⟨[], rfl, by simp⟩
  | cons chunk chunks ih =>
      cases hread : readFrames (reader.buffered ++ chunk) with
      | mk result left => cases result with
        | error => simp only [pushAll, push, hread] at h; cases h
        | ok first =>
            simp only [pushAll, push, hread] at h
            cases hmore : pushAll ⟨left⟩ chunks with
            | mk result last' => cases result with
              | error => rw [hmore] at h; cases h
              | ok more =>
                  rw [hmore] at h
                  cases h
                  obtain ⟨-, stream, hstream, hbuffered⟩ := readFrames_stream hread
                  obtain ⟨rest, hrest, hlast⟩ := ih hmore
                  refine ⟨stream ++ rest, ?_, ?_⟩
                  · obtain ⟨each, heach, rfl⟩ := Option.map_eq_some_iff.mp hstream
                    obtain ⟨others, hothers, rfl⟩ := Option.map_eq_some_iff.mp hrest
                    rw [jobFrames, List.mapM_append, heach, hothers]
                    exact congrArg some List.flatten_append
                  · rw [List.append_assoc, hlast, ← List.append_assoc, hbuffered,
                      List.flatten_cons, List.append_assoc]

end JobFrameReader

/-- The beginning of a stream holds its first messages, and bytes that no message ends. -/
theorem readFrames_front {stream front : List UInt8} (h : jobFrames frames = some stream)
    (hsize : ∀ frame ∈ frames, frame.data.length ≤ MAX_SERVER_MESSAGE_BYTES)
    (hfront : front <+: stream) :
    ∃ done rest, done <+: frames ∧ readFrames front = (.ok done, rest) := by
  induction frames generalizing stream front with
  | nil =>
      cases h
      rw [List.prefix_nil.mp hfront]
      exact ⟨[], [], List.nil_prefix, readFrames_nil⟩
  | cons frame frames ih =>
      obtain ⟨bytes, more, hframe, hframes, rfl⟩ := of_jobFrames_cons h
      have hsmall := hsize frame (by simp)
      by_cases hlt : front.length < bytes.length
      · have hinside : front <+: bytes :=
          List.prefix_of_prefix_length_le hfront (List.prefix_append _ _) (by omega)
        exact ⟨[], front, List.nil_prefix, readFrames_inside hframe hsmall hinside hlt⟩
      · obtain ⟨later, rfl⟩ : bytes <+: front :=
          List.prefix_of_prefix_length_le (List.prefix_append _ _) hfront (by omega)
        obtain ⟨done, rest, hdone, hread⟩ := ih hframes
          (fun other hother => hsize other (by simp [hother]))
          ((List.prefix_append_right_inj bytes).mp hfront)
        refine ⟨frame :: done, rest, (List.prefix_cons_inj frame).mpr hdone, ?_⟩
        rw [readFrames_frame hframe hsmall, hread]
        rfl

open JobFrameReader in
/-- However the frames of messages are cut into chunks, a reader that is fed the chunks returns the
messages in order, and after each chunk it is in a frame exactly if the bytes so far end in one.
Whatever bytes a reader is fed, it throws, or the frames that it returned, written again, are where
the bytes begin. -/
theorem frames_round_trip :
    (∀ messages : List Frame,
      (∀ message ∈ messages, message.data.length ≤ MAX_SERVER_MESSAGE_BYTES) →
      ∃ stream, jobFrames messages = some stream ∧
        ∀ chunks : List (List UInt8), chunks.flatten = stream →
          (∃ reader, pushAll {} chunks = (.ok messages, reader)) ∧
          ∀ front, front <+: chunks →
            ∃ done reader, pushAll {} front = (.ok done, reader) ∧
              (reader.isPartial = true ↔
                ¬ ∃ whole, whole <+: messages ∧ jobFrames whole = some front.flatten)) ∧
    ∀ (chunks : List (List UInt8)) (reader : JobFrameReader),
      match reader.pushAll chunks with
      | (.error _, _) => True
      | (.ok frames, _) =>
          ∃ stream, jobFrames frames = some stream ∧
            stream <+: reader.buffered ++ chunks.flatten := by
  constructor
  · intro messages hsize
    have hstream : ∃ stream, jobFrames messages = some stream := by
      induction messages with
      | nil => exact ⟨[], rfl⟩
      | cons message messages ih =>
          obtain ⟨rest, hrest⟩ := ih fun other hother => hsize other (by simp [hother])
          have hsmall := hsize message (by simp)
          have hwidth : message.data.length + 1 < 256 ^ 4 := by
            unfold MAX_SERVER_MESSAGE_BYTES at hsmall
            omega
          exact ⟨_, jobFrames_cons (if_pos hwidth) hrest⟩
    obtain ⟨stream, hstream⟩ := hstream
    refine ⟨stream, hstream, ?_⟩
    rintro chunks rfl
    have hall : readFrames chunks.flatten = (.ok messages, []) := by
      have := readFrames_frames hstream hsize []
      rw [List.append_nil, readFrames_nil] at this
      simpa [Except.map] using this
    refine ⟨⟨_, pushAll_of_readFrames readFrames_nil hall⟩, ?_⟩
    rintro front ⟨back, rfl⟩
    have hbeginning : front.flatten <+: (front ++ back).flatten :=
      ⟨back.flatten, by rw [List.flatten_append]⟩
    obtain ⟨done, rest, hdone, hread⟩ := readFrames_front hstream hsize hbeginning
    refine ⟨done, ⟨rest⟩, pushAll_of_readFrames readFrames_nil hread, ?_⟩
    obtain ⟨-, bytes, hbytes, hfront⟩ := readFrames_stream hread
    rw [isPartial, decide_eq_true_iff]
    constructor
    · rintro hrest ⟨whole, hwhole, hsame⟩
      -- the bytes would be whole frames, and none of them would be left
      have hnone := readFrames_frames hsame
        (fun message hmem => hsize message (hwhole.subset hmem)) []
      rw [List.append_nil, hread, readFrames_nil] at hnone
      have hnil : rest = [] := congrArg Prod.snd hnone
      subst hnil
      exact absurd hrest (Nat.lt_irrefl 0)
    · intro hnone
      cases rest with
      | nil => exact absurd ⟨done, hdone, by rw [hbytes, ← hfront, List.append_nil]⟩ hnone
      | cons => exact Nat.succ_pos _
  · intro chunks reader
    split
    · trivial
    · next h =>
      obtain ⟨stream, hstream, hbytes⟩ := stream_of_pushAll h
      exact ⟨stream, hstream, _, hbytes⟩

/-- Two messages whose frames are cut inside the first header, inside a body and at a frame's end. -/
theorem frames_round_trip_cut :
    ∃ reader, JobFrameReader.pushAll {} [[0, 0], [0, 3, 1, 104], [105], [0, 0, 0, 1, 2]] =
      (.ok [⟨[104, 105], false⟩, ⟨[], true⟩], reader) := by
  obtain ⟨stream, hstream, h⟩ :=
    frames_round_trip.1 [⟨[104, 105], false⟩, ⟨[], true⟩] (by decide)
  refine (h _ ?_).1
  rw [← Option.some_inj, ← hstream]
  rfl

end Stim.JobFrames
