import Stim.Core.JobFrames
import Stim.Core.Noise.Transport
import Mathlib.Data.List.Infix

/-!
# A client's messages in its job

`deliver` of `packages/server/src/offload-jobs.ts` writes what a connection decrypts, from the start
of its job on, to the input of the job, and `packages/stim-cli/src/job/offload/serve.ts` reads it.
-/

namespace Stim.Noise

open IdealAead JobFrames

/-- What `deliver` writes. -/
def NoiseMessage.frame (m : NoiseMessage) : Frame := ⟨m.body, m.typeByte == BINARY⟩

/-- An end has a limit, and decrypted nothing larger. -/
structure Link.Within (l : Link) (s : Side) (limit : Nat) : Prop where
  max : (l.ends s).maxReceive = limit
  small : ∀ m ∈ l.received s, m.body.length ≤ limit

variable {A : Aead UInt8 TAG_BYTES} {key : Side → List UInt8} {l : Link} {s : Side} {limit : Nat}

theorem Link.Within.update (h : l.Within s limit) {t : Side} {e : NoiseTransport}
    (he : e.maxReceive = (l.ends t).maxReceive) :
    (Function.update l.ends t e s).maxReceive = limit := by
  by_cases hts : s = t
  · rw [hts, Function.update_self, he, ← hts, h.max]
  · rw [Function.update_of_ne hts, h.max]

theorem Link.Within.step (hStep : InStep key l) (h : l.Within s limit) (call : TransportCall) :
    (l.step A call).Within s limit := by
  cases call with
  | encrypt t data =>
      have hMax : ((l.ends t).encrypt A l.log data).2.1.maxReceive = (l.ends t).maxReceive := by
        unfold NoiseTransport.encrypt
        split_ifs <;> [rfl; rfl; (split <;> rfl)]
      simp only [Link.step, Link.encrypt]
      split <;> rename_i heq <;> rw [heq] at hMax <;> exact ⟨h.update hMax, h.small⟩
  | decrypt t message =>
      cases hClosed : (l.ends t).closed with
      | true => simpa [Link.step, Link.decrypt, NoiseTransport.decrypt, hClosed] using h
      | false =>
          by_cases hNext : ∃ m, l.next t = some (m, message) ∧
              m.body.length ≤ (l.ends t).maxReceive
          · obtain ⟨m, hNext, hFits⟩ := hNext
            rw [Link.step, hStep.decrypt_next hClosed hNext hFits]
            refine ⟨h.update rfl, fun m' hm' => ?_⟩
            by_cases hts : s = t
            · subst hts
              simp only [Function.update_self, List.mem_append, List.mem_singleton] at hm'
              rcases hm' with hm' | rfl
              · exact h.small m' hm'
              · exact h.max ▸ hFits
            · simp only [Function.update_of_ne hts] at hm'
              exact h.small m' hm'
          · obtain ⟨e, he⟩ := hStep.decrypt_other hClosed hNext
            rw [Link.step, he]
            exact ⟨h.update rfl, h.small⟩

theorem Link.Within.run (hStep : InStep key l) (h : l.Within s limit)
    (calls : List TransportCall) : (l.run A calls).Within s limit := by
  induction calls generalizing l with
  | nil => exact h
  | cons call rest ih => exact ih (inStep_run hStep [call]) (h.step hStep call)

theorem exists_jobFrames {frames : List Frame}
    (h : ∀ frame ∈ frames, frame.data.length ≤ MAX_SERVER_MESSAGE_BYTES) :
    ∃ stream, jobFrames frames = some stream := by
  induction frames with
  | nil => exact ⟨[], rfl⟩
  | cons frame frames ih =>
      obtain ⟨rest, hRest⟩ := ih fun other hOther => h other (List.mem_cons_of_mem _ hOther)
      have hWidth : frame.data.length + 1 < 256 ^ 4 := by
        have := h frame List.mem_cons_self
        unfold MAX_SERVER_MESSAGE_BYTES at this
        omega
      exact ⟨_, jobFrames_cons (if_pos hWidth) hRest⟩

/-- However the connection is attacked and the pipe is cut, a job reads what the client sent, in
order, up to some message, and all that the server decrypted once it has read the pipe. -/
theorem job_reads_sent (hFresh : l.Fresh key)
    (hLimit : (l.ends .server).maxReceive ≤ MAX_SERVER_MESSAGE_BYTES)
    (calls : List TransportCall) (start : Nat) :
    let frames := (((l.run A calls).received .server).drop start).map NoiseMessage.frame
    ∃ stream, jobFrames frames = some stream ∧
      ∀ chunks : List (List UInt8), chunks.flatten <+: stream →
        ∃ done reader, JobFrameReader.pushAll {} chunks = (.ok done, reader) ∧
          done <+: (((l.run A calls).sent .client).drop start).map
            (NoiseMessage.frame ∘ Prod.fst) ∧
          (chunks.flatten = stream → done = frames) := by
  intro frames
  have hStep := inStep_of_fresh hFresh
  have hWithin : l.Within .server _ := ⟨rfl, by simp [hFresh.received]⟩
  have hSize : ∀ frame ∈ frames, frame.data.length ≤ MAX_SERVER_MESSAGE_BYTES := by
    intro frame hMem
    obtain ⟨m, hm, rfl⟩ := List.mem_map.mp hMem
    exact ((hWithin.run hStep calls).small m (List.mem_of_mem_drop hm)).trans hLimit
  obtain ⟨stream, hStream⟩ := exists_jobFrames hSize
  refine ⟨stream, hStream, fun chunks hChunks => ?_⟩
  obtain ⟨done, rest, hDone, hRead⟩ := readFrames_front hStream hSize hChunks
  refine ⟨done, ⟨rest⟩, JobFrameReader.pushAll_of_readFrames readFrames_nil hRead, ?_, ?_⟩
  · have hOrder := (((inStep_run (A := A) hStep calls).order .server).drop start).map
      NoiseMessage.frame
    rw [← List.map_drop, List.map_map] at hOrder
    exact hDone.trans hOrder
  · intro hAll
    have hWhole := readFrames_frames hStream hSize []
    rw [List.append_nil, readFrames_nil, ← hAll, hRead] at hWhole
    simpa [Except.map] using (Prod.mk.inj hWhole).1

theorem job_reads_sent_oneMessage :
    ∃ done reader, JobFrameReader.pushAll {} [[0, 0, 0], [2, 2, 7]] = (.ok done, reader) ∧
      done <+: ((newLink.run frameAead oneMessage).sent .client).map
        (NoiseMessage.frame ∘ Prod.fst) := by
  have hFresh : newLink.Fresh sessionKey :=
    ⟨by decide, fun _ => rfl, fun _ => rfl, fun _ => rfl, by simp [newLink], fun _ => rfl,
      fun _ => rfl⟩
  obtain ⟨stream, hStream, hReads⟩ := job_reads_sent hFresh (by decide) oneMessage 0
  have hSix : jobFrames ((((newLink.run frameAead oneMessage).received .server).drop 0).map
      NoiseMessage.frame) = some [0, 0, 0, 2, 2, 7] := by decide +kernel
  obtain rfl := Option.some_inj.mp (hSix.symm.trans hStream)
  obtain ⟨done, reader, hRead, hSent, -⟩ := hReads [[0, 0, 0], [2, 2, 7]] (List.prefix_refl _)
  exact ⟨done, reader, hRead, hSent⟩

end Stim.Noise
