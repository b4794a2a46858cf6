import Stim.Core.Noise.Cipher
import Mathlib.Data.List.Nodup
import Mathlib.Data.List.Range

/-!
# The Noise transport

`NoiseTransport` of `packages/core/noise.ts`, and two of them joined by an adversary:
either end encrypts what its user passes, and the adversary hands any bytes to either
end's `decrypt`, in any order.  Counters are not sent, so they have to stay in step.

The main result is `transport_delivers`: what an end decrypted is a prefix of what
the other end sent, and the first delivery that is not the next frame closes it for
good.
-/

namespace Stim.Noise

open IdealAead

/-- A message: text or binary.  A well-formed JavaScript string is a sequence of Unicode
scalar values. -/
inductive NoiseMessage where
  | text (data : String)
  | binary (data : List UInt8)
  deriving DecidableEq

def TEXT : UInt8 := 0x01

def BINARY : UInt8 := 0x02

namespace NoiseMessage

/-- The message's bytes: UTF-8 for text. -/
def body : NoiseMessage → List UInt8
  | .text data => data.toUTF8.data.toList
  | .binary data => data

def typeByte : NoiseMessage → UInt8
  | .text _ => TEXT
  | .binary _ => BINARY

/-- The plaintext of a frame. -/
def plaintext (m : NoiseMessage) : List UInt8 := m.typeByte :: m.body

/-- The message of a plaintext: a fatal UTF-8 decoder that keeps a byte order mark. -/
def ofPlaintext : List UInt8 → Except Failure NoiseMessage
  | [] => .error (.noise "Unknown message type")
  | type :: body =>
      if type = TEXT then
        match String.fromUTF8? ⟨body.toArray⟩ with
        | some data => .ok (.text data)
        | none => .error (.noise "Message is not valid")
      else if type = BINARY then .ok (.binary body)
      else .error (.noise "Unknown message type")

theorem ofPlaintext_plaintext (m : NoiseMessage) : ofPlaintext m.plaintext = .ok m := by
  cases m with
  | binary data => rfl
  | text data =>
      have hBytes : (⟨data.toUTF8.data.toList.toArray⟩ : ByteArray) = data.toUTF8 := by simp
      have hValid : data.toUTF8.IsValidUTF8 := data.isValidUTF8
      show (match String.fromUTF8? ⟨data.toUTF8.data.toList.toArray⟩ with
        | some data => Except.ok (NoiseMessage.text data)
        | none => .error (Failure.noise "Message is not valid")) = _
      rw [hBytes, String.fromUTF8?, dif_pos hValid]
      rfl

end NoiseMessage

/-! ## One end -/

structure NoiseTransport where
  send : CipherState UInt8
  receive : CipherState UInt8
  maxSend : Nat
  maxReceive : Nat
  closed : Bool

def closedFailure : Failure := .noise "The transport is closed"

namespace NoiseTransport

/-- `encrypt`, with the transport and the log after it. -/
def encrypt (A : Aead UInt8 TAG_BYTES) (log : Log UInt8) (t : NoiseTransport)
    (data : NoiseMessage) : Except Failure (List UInt8) × NoiseTransport × Log UInt8 :=
  if t.closed then (.error closedFailure, t, log)
  else if t.maxSend < data.body.length then
    (.error (.range s!"Message exceeds {t.maxSend} bytes"), t, log)
  else match t.send.encryptWithAd A log [] data.plaintext with
    | .ok (frame, send, log') => (.ok frame, { t with send }, log')
    | .error e => (.error e, { t with closed := true }, log)

/-- `decrypt`, with the transport after it.  A plaintext of an unknown type or with
malformed UTF-8 has used up its counter. -/
def decrypt (log : Log UInt8) (t : NoiseTransport) (message : List UInt8) :
    Except Failure NoiseMessage × NoiseTransport :=
  if t.closed then (.error closedFailure, t)
  else if t.maxReceive + 1 + TAG_BYTES < message.length then
    (.error (.noise "Message is too large"), { t with closed := true })
  else match t.receive.decryptWithAd log [] message with
    | .error e => (.error e, { t with closed := true })
    | .ok (plaintext, receive) =>
        match NoiseMessage.ofPlaintext plaintext with
        | .ok m => (.ok m, { t with receive })
        | .error e => (.error e, { t with receive, closed := true })

end NoiseTransport

/-! ## Two ends and an adversary -/

inductive Side where
  | client | server
  deriving DecidableEq, Repr

def Side.other : Side → Side
  | .client => .server
  | .server => .client

theorem Side.eq_or_other (s t : Side) : t = s ∨ t = s.other := by
  cases s <;> cases t <;> simp [other]

/-- Both ends, everything encrypted so far, and what each end sent and decrypted. -/
structure Link where
  ends : Side → NoiseTransport
  log : Log UInt8
  /-- The messages `encrypt` answered a frame for, with the frame. -/
  sent : Side → List (NoiseMessage × List UInt8)
  /-- The messages `decrypt` answered. -/
  received : Side → List NoiseMessage

/-- A call of one end's user, or a delivery by the adversary. -/
inductive TransportCall where
  | encrypt (side : Side) (data : NoiseMessage)
  | decrypt (side : Side) (message : List UInt8)

def TransportCall.side : TransportCall → Side
  | .encrypt side _ => side
  | .decrypt side _ => side

namespace Link

variable (A : Aead UInt8 TAG_BYTES)

/-- An `encrypt` call. -/
def encrypt (l : Link) (side : Side) (data : NoiseMessage) :
    Except Failure (List UInt8) × Link :=
  match (l.ends side).encrypt A l.log data with
  | (.ok frame, t, log) => (.ok frame, { l with
      ends := Function.update l.ends side t
      log
      sent := Function.update l.sent side (l.sent side ++ [(data, frame)]) })
  | (.error e, t, log) => (.error e, { l with ends := Function.update l.ends side t, log })

/-- A `decrypt` call. -/
def decrypt (l : Link) (side : Side) (message : List UInt8) :
    Except Failure NoiseMessage × Link :=
  match (l.ends side).decrypt l.log message with
  | (.ok m, t) => (.ok m, { l with
      ends := Function.update l.ends side t
      received := Function.update l.received side (l.received side ++ [m]) })
  | (.error e, t) => (.error e, { l with ends := Function.update l.ends side t })

/-- The link after a call. -/
def step (l : Link) : TransportCall → Link
  | .encrypt side data => (l.encrypt A side data).2
  | .decrypt side message => (l.decrypt side message).2

/-- Why a call fails, if it does. -/
def failure (l : Link) : TransportCall → Option Failure
  | .encrypt side data => match (l.encrypt A side data).1 with
      | .error e => some e
      | .ok _ => none
  | .decrypt side message => match (l.decrypt side message).1 with
      | .error e => some e
      | .ok _ => none

def run (l : Link) (calls : List TransportCall) : Link := calls.foldl (step A) l

/-- Two new ends whose keys match: each end receives under the key the other sends under,
and nothing was encrypted under either key. -/
structure Fresh (key : Side → List UInt8) (l : Link) : Prop where
  apart : key .client ≠ key .server
  send : ∀ s, (l.ends s).send = .ofKey (key s)
  receive : ∀ s, (l.ends s).receive = .ofKey (key s.other)
  closed : ∀ s, (l.ends s).closed = false
  unused : ∀ s, ∀ e ∈ l.log, e.key ≠ key s
  sent : ∀ s, l.sent s = []
  received : ∀ s, l.received s = []

/-- The message and frame an end has to decrypt next. -/
def next (l : Link) (s : Side) : Option (NoiseMessage × List UInt8) :=
  (l.sent s.other)[(l.received s).length]?

end Link

/-! ## The ends stay in step -/

/-- The log entries of an end's frames: the `i`-th frame was encrypted under nonce `i`. -/
def frames (key : List UInt8) (sent : List (NoiseMessage × List UInt8)) : Log UInt8 :=
  sent.mapIdx fun i x => ⟨key, i, [], x.1.plaintext, x.2⟩

theorem mem_frames {key : List UInt8} {sent : List (NoiseMessage × List UInt8)} {n : Nat}
    {plaintext ciphertext : List UInt8} :
    ⟨key, n, [], plaintext, ciphertext⟩ ∈ frames key sent ↔
      ∃ m : NoiseMessage, sent[n]? = some (m, ciphertext) ∧ plaintext = m.plaintext := by
  simp only [frames, List.mem_mapIdx, Sealed.mk.injEq, true_and]
  constructor
  · rintro ⟨i, hi, rfl, rfl, rfl⟩
    exact ⟨sent[i].1, List.getElem?_eq_getElem hi, rfl⟩
  · rintro ⟨m, hm, rfl⟩
    obtain ⟨hn, hEq⟩ := List.getElem?_eq_some_iff.mp hm
    exact ⟨n, hn, rfl, by rw [hEq], by rw [hEq]⟩

theorem frames_concat (key : List UInt8) (sent : List (NoiseMessage × List UInt8))
    (m : NoiseMessage) (frame : List UInt8) :
    frames key (sent ++ [(m, frame)]) =
      frames key sent ++ [⟨key, sent.length, [], m.plaintext, frame⟩] := by
  simp [frames]

theorem map_nonce_frames (key : List UInt8) (sent : List (NoiseMessage × List UInt8)) :
    (frames key sent).map Sealed.nonce = List.range sent.length := by
  apply List.ext_getElem
  · simp [frames]
  · intro i _ _
    simp [frames]

/-- The counters of both ends are the lengths of what was sent and decrypted. -/
structure InStep (key : Side → List UInt8) (l : Link) : Prop where
  apart : key .client ≠ key .server
  send : ∀ s, (l.ends s).send = ⟨some (key s), (l.sent s).length⟩
  receive : ∀ s, (l.ends s).receive = ⟨some (key s.other), (l.received s).length⟩
  entries : ∀ s, l.log.filter (fun e => e.key = key s) = frames (key s) (l.sent s)
  bound : ∀ s, (l.sent s).length ≤ MAX_NONCE
  order : ∀ s, l.received s <+: (l.sent s.other).map Prod.fst
  length : ∀ s, ∀ x ∈ l.sent s, x.2.length = x.1.body.length + 1 + TAG_BYTES

variable {A : Aead UInt8 TAG_BYTES} {key : Side → List UInt8} {l : Link}

theorem inStep_of_fresh (h : l.Fresh key) : InStep key l where
  apart := h.apart
  send := fun s => by rw [h.send, h.sent]; rfl
  receive := fun s => by rw [h.receive, h.received]; rfl
  entries := by
    intro s
    rw [h.sent, List.filter_eq_nil_iff.mpr]
    · rfl
    · exact fun e he => by simpa using h.unused s e he
  bound := fun s => by simp [h.sent]
  order := fun s => by simp [h.received]
  length := fun s => by simp [h.sent]

theorem InStep.key_ne (h : InStep key l) (s : Side) : key s.other ≠ key s := by
  cases s with
  | client => exact h.apart.symm
  | server => exact h.apart

/-- Exactly the frame with the counter's number decrypts, to its message. -/
theorem InStep.decrypt_eq (h : InStep key l) (s : Side) (n : Nat) (ciphertext : List UInt8) :
    IdealAead.decrypt l.log (key s) n [] ciphertext =
      ((l.sent s)[n]?.filter fun x => x.2 = ciphertext).map fun x => x.1.plaintext := by
  have hMem : ∀ p, (⟨key s, n, [], p, ciphertext⟩ : Sealed UInt8) ∈ l.log ↔
      ∃ m : NoiseMessage, (l.sent s)[n]? = some (m, ciphertext) ∧ p = m.plaintext := by
    intro p
    rw [← @mem_frames (key s), ← h.entries s]
    simp
  cases hFrame : (l.sent s)[n]?.filter fun x => x.2 = ciphertext with
  | some x =>
      obtain ⟨m, frame⟩ := x
      obtain ⟨hx, hEq⟩ := Option.filter_eq_some_iff.mp hFrame
      obtain rfl := of_decide_eq_true hEq
      refine decrypt_of_mem ((hMem _).mpr ⟨m, hx, rfl⟩) ?_
      intro p hp
      obtain ⟨m, hm, rfl⟩ := (hMem p).mp hp
      rw [hx] at hm
      cases hm
      rfl
  | none =>
      cases hOpen : IdealAead.decrypt l.log (key s) n [] ciphertext with
      | none => rfl
      | some p =>
          obtain ⟨m, hm, -⟩ := (hMem p).mp (mem_of_decrypt hOpen)
          rw [hm] at hFrame
          simp at hFrame

variable {s : Side} {message : List UInt8}

/-- The next frame, when it fits, decrypts to its message. -/
theorem InStep.decrypt_next {m : NoiseMessage} (h : InStep key l)
    (hOpen : (l.ends s).closed = false) (hNext : l.next s = some (m, message))
    (hFits : m.body.length ≤ (l.ends s).maxReceive) :
    l.decrypt s message = (.ok m, { l with
      ends := Function.update l.ends s { l.ends s with
        receive := ⟨some (key s.other), (l.received s).length + 1⟩ }
      received := Function.update l.received s (l.received s ++ [m]) }) := by
  obtain ⟨hLt, hGet⟩ := List.getElem?_eq_some_iff.mp hNext
  have hLength : message.length = m.body.length + 1 + TAG_BYTES :=
    h.length s.other (m, message) (hGet ▸ List.getElem_mem hLt)
  have hNonce : ¬ MAX_NONCE ≤ (l.received s).length := by
    have := h.bound s.other
    omega
  have hSize : ¬ (l.ends s).maxReceive + 1 + TAG_BYTES < message.length := by omega
  have hTag : ¬ message.length < TAG_BYTES := by omega
  have hPlain : IdealAead.decrypt l.log (key s.other) (l.received s).length [] message =
      some m.plaintext := by
    rw [h.decrypt_eq, show (l.sent s.other)[(l.received s).length]? = some (m, message) from hNext]
    simp
  simp [Link.decrypt, NoiseTransport.decrypt, CipherState.decryptWithAd, hOpen, h.receive s,
    hSize, hNonce, hTag, hPlain, NoiseMessage.ofPlaintext_plaintext]

/-- What decrypts is the next frame. -/
theorem InStep.next_of_decrypt {r : List UInt8 × CipherState UInt8} (h : InStep key l)
    (hOk : (l.ends s).receive.decryptWithAd l.log [] message = .ok r) :
    ∃ m, l.next s = some (m, message) := by
  rw [CipherState.decryptWithAd, h.receive s] at hOk
  simp only at hOk
  split at hOk
  · cases hOk
  · split at hOk
    · cases hOk
    · rw [h.decrypt_eq] at hOk
      cases hFrame : (l.sent s.other)[(l.received s).length]?.filter fun x => x.2 = message with
      | none => simp [hFrame] at hOk
      | some x =>
          obtain ⟨hNext, hEq⟩ := Option.filter_eq_some_iff.mp hFrame
          obtain rfl := of_decide_eq_true hEq
          exact ⟨x.1, hNext⟩

/-- Any other delivery closes the end. -/
theorem InStep.decrypt_other (h : InStep key l) (hOpen : (l.ends s).closed = false)
    (hOther : ¬ ∃ m, l.next s = some (m, message) ∧
      m.body.length ≤ (l.ends s).maxReceive) :
    ∃ e, l.decrypt s message = (.error e, { l with
      ends := Function.update l.ends s { l.ends s with closed := true } }) := by
  have hFails : ∃ e, (l.ends s).decrypt l.log message =
      (.error e, { l.ends s with closed := true }) := by
    simp only [NoiseTransport.decrypt, hOpen, Bool.false_eq_true, if_false]
    split
    · exact ⟨_, rfl⟩
    · rename_i hSize
      cases hOk : (l.ends s).receive.decryptWithAd l.log [] message with
      | error e => exact ⟨e, rfl⟩
      | ok r =>
          -- the next frame, which was not too large
          obtain ⟨m, hNext⟩ := h.next_of_decrypt hOk
          obtain ⟨hLt, hGet⟩ := List.getElem?_eq_some_iff.mp hNext
          have hLength : message.length = m.body.length + 1 + TAG_BYTES :=
            h.length s.other (m, message) (hGet ▸ List.getElem_mem hLt)
          exact absurd ⟨m, hNext, by omega⟩ hOther
  obtain ⟨e, he⟩ := hFails
  exact ⟨e, by simp [Link.decrypt, he]⟩

/-! ## Steps and runs -/

theorem concat_isInit {α : Type} {xs ys : List α} {a : α} (h : xs <+: ys)
    (hGet : ys[xs.length]? = some a) : xs ++ [a] <+: ys := by
  obtain ⟨rest, rfl⟩ := h
  cases rest with
  | nil => simp at hGet
  | cons b rest =>
      simp only [List.getElem?_append_right (Nat.le_refl _), Nat.sub_self,
        List.getElem?_cons_zero, Option.some.injEq] at hGet
      exact ⟨rest, by simp [hGet]⟩

theorem inStep_close (h : InStep key l) :
    InStep key { l with ends := Function.update l.ends s { l.ends s with closed := true } } :=
  { h with
    send := by
      intro t
      by_cases hts : t = s
      · subst hts
        simpa using h.send t
      · simpa [hts] using h.send t
    receive := by
      intro t
      by_cases hts : t = s
      · subst hts
        simpa using h.receive t
      · simpa [hts] using h.receive t }

theorem inStep_decrypt (h : InStep key l) (s : Side) (message : List UInt8) :
    InStep key (l.decrypt s message).2 := by
  cases hClosed : (l.ends s).closed with
  | true => simpa [Link.decrypt, NoiseTransport.decrypt, hClosed] using h
  | false =>
      by_cases hNext : ∃ m, l.next s = some (m, message) ∧
          m.body.length ≤ (l.ends s).maxReceive
      · obtain ⟨m, hNext, hFits⟩ := hNext
        rw [h.decrypt_next hClosed hNext hFits]
        refine { h with send := ?_, receive := ?_, order := ?_ }
        · intro t
          by_cases hts : t = s
          · subst hts
            simpa using h.send t
          · simpa [hts] using h.send t
        · intro t
          by_cases hts : t = s
          · subst hts
            simp
          · simpa [hts] using h.receive t
        · intro t
          by_cases hts : t = s
          · subst hts
            have hGet : ((l.sent t.other).map Prod.fst)[(l.received t).length]? = some m := by
              rw [List.getElem?_map, show (l.sent t.other)[(l.received t).length]? = _ from hNext]
              rfl
            simpa using concat_isInit (h.order t) hGet
          · simpa [hts] using h.order t
      · obtain ⟨e, he⟩ := h.decrypt_other hClosed hNext
        rw [he]
        exact inStep_close h

/-- What a successful encryption leaves. -/
theorem InStep.sends (h : InStep key l) (data : NoiseMessage)
    (hNonce : ¬ MAX_NONCE ≤ (l.sent s).length) :
    InStep key { l with
      ends := Function.update l.ends s { l.ends s with
        send := ⟨some (key s), (l.sent s).length + 1⟩ }
      log := l.log ++ [⟨key s, (l.sent s).length, [], data.plaintext,
        A.encrypt (key s) (l.sent s).length [] data.plaintext⟩]
      sent := Function.update l.sent s (l.sent s ++ [(data,
        A.encrypt (key s) (l.sent s).length [] data.plaintext)]) } where
  apart := h.apart
  send := by
    intro t
    by_cases hts : t = s
    · subst hts
      simp
    · simpa [hts] using h.send t
  receive := by
    intro t
    by_cases hts : t = s
    · subst hts
      simpa using h.receive t
    · simpa [hts] using h.receive t
  entries := by
    intro t
    rw [List.filter_append, h.entries t]
    by_cases hts : t = s
    · subst hts
      simp [frames_concat]
    · obtain rfl := (Side.eq_or_other s t).resolve_left hts
      have hKey := (h.key_ne s).symm
      simp [hts, hKey]
  bound := by
    intro t
    by_cases hts : t = s
    · subst hts
      simp only [Function.update_self, List.length_append, List.length_singleton]
      omega
    · simpa [hts] using h.bound t
  order := by
    intro t
    by_cases hts : t.other = s
    · subst hts
      have hOrder := h.order t
      simp only [Function.update_self, List.map_append]
      exact hOrder.trans (List.prefix_append _ _)
    · simpa [hts] using h.order t
  length := by
    intro t x hx
    by_cases hts : t = s
    · subst hts
      simp only [Function.update_self, List.mem_append, List.mem_singleton] at hx
      rcases hx with hx | rfl
      · exact h.length t x hx
      · simp [A.length_encrypt, NoiseMessage.plaintext]
    · simp only [Function.update_of_ne hts] at hx
      exact h.length t x hx

theorem inStep_encrypt (h : InStep key l) (s : Side) (data : NoiseMessage) :
    InStep key (l.encrypt A s data).2 := by
  cases hClosed : (l.ends s).closed with
  | true => simpa [Link.encrypt, NoiseTransport.encrypt, hClosed] using h
  | false =>
      by_cases hSize : (l.ends s).maxSend < data.body.length
      · simpa [Link.encrypt, NoiseTransport.encrypt, hClosed, hSize] using h
      · by_cases hNonce : MAX_NONCE ≤ (l.sent s).length
        · have hClose := inStep_close (s := s) h
          simpa [Link.encrypt, NoiseTransport.encrypt, CipherState.encryptWithAd, hClosed, hSize,
            h.send s, hNonce] using hClose
        · have hSends := h.sends (A := A) data hNonce
          simpa [Link.encrypt, NoiseTransport.encrypt, CipherState.encryptWithAd, hClosed, hSize,
            h.send s, hNonce] using hSends

theorem inStep_run (h : InStep key l) (calls : List TransportCall) :
    InStep key (l.run A calls) := by
  induction calls generalizing l with
  | nil => exact h
  | cons call rest ih =>
      refine ih ?_
      cases call with
      | encrypt s data => exact inStep_encrypt h s data
      | decrypt s message => exact inStep_decrypt h s message

theorem failure_of_closed {call : TransportCall} (h : (l.ends call.side).closed = true) :
    l.failure A call = some closedFailure := by
  cases call with
  | encrypt s data =>
      have hs : (l.ends s).closed = true := h
      simp [Link.failure, Link.encrypt, NoiseTransport.encrypt, hs]
  | decrypt s message =>
      have hs : (l.ends s).closed = true := h
      simp [Link.failure, Link.decrypt, NoiseTransport.decrypt, hs]

/-- A closed end stays closed. -/
theorem closed_step (call : TransportCall) (h : (l.ends s).closed = true) :
    ((l.step A call).ends s).closed = true := by
  by_cases hs : call.side = s
  · cases call with
    | encrypt t data =>
        obtain rfl : t = s := hs
        simp [Link.step, Link.encrypt, NoiseTransport.encrypt, h]
    | decrypt t message =>
        obtain rfl : t = s := hs
        simp [Link.step, Link.decrypt, NoiseTransport.decrypt, h]
  · have hEnds : (l.step A call).ends s = l.ends s := by
      cases call with
      | encrypt t data =>
          simp only [Link.step, Link.encrypt]
          split <;> exact Function.update_of_ne (Ne.symm hs) ..
      | decrypt t message =>
          simp only [Link.step, Link.decrypt]
          split <;> exact Function.update_of_ne (Ne.symm hs) ..
    rw [hEnds]
    exact h

theorem closed_run (calls : List TransportCall) (h : (l.ends s).closed = true) :
    ((l.run A calls).ends s).closed = true := by
  induction calls generalizing l with
  | nil => exact h
  | cons call rest ih => exact ih (closed_step call h)

theorem nonces_of_inStep (h : InStep key l) (s : Side) :
    ((l.log.filter fun e => e.key = key s).map Sealed.nonce).Nodup ∧
      ∀ e ∈ l.log, e.key = key s → e.nonce < MAX_NONCE := by
  have hNonces : (l.log.filter fun e => e.key = key s).map Sealed.nonce =
      List.range (l.sent s).length := by
    rw [h.entries s, map_nonce_frames]
  refine ⟨hNonces ▸ List.nodup_range, fun e he hKey => ?_⟩
  have hMem : e.nonce ∈ List.range (l.sent s).length := by
    rw [← hNonces]
    exact List.mem_map_of_mem (List.mem_filter.mpr ⟨he, decide_eq_true hKey⟩)
  have hBound := h.bound s
  have hLt := List.mem_range.mp hMem
  omega

/-- A transport whose keys match delivers a prefix of what the other end sent, in order and
with its types and contents.  A delivery that is not the next frame, or does not fit, closes
the end, and every later call of a closed end fails.  No nonce is used twice under one key,
nonce `2 ^ 64 - 1` never, and data that is too large to send changes nothing. -/
theorem transport_delivers (hFresh : l.Fresh key) (calls : List TransportCall) (s : Side) :
    let v := l.run A calls
    v.received s <+: (v.sent s.other).map Prod.fst ∧
    (∀ message m, (v.ends s).closed = false → v.next s = some (m, message) →
      m.body.length ≤ (v.ends s).maxReceive → (v.decrypt s message).1 = .ok m) ∧
    (∀ message, (v.ends s).closed = false →
      (¬ ∃ m, v.next s = some (m, message) ∧ m.body.length ≤ (v.ends s).maxReceive) →
      v.failure A (.decrypt s message) ≠ none ∧
        ((v.step A (.decrypt s message)).ends s).closed = true) ∧
    ((v.ends s).closed = true → ∀ later call, call.side = s →
      (v.run A later).failure A call = some closedFailure) ∧
    ((v.log.filter fun e => e.key = key s).map Sealed.nonce).Nodup ∧
    (∀ e ∈ v.log, e.key = key s → e.nonce < 2 ^ 64 - 1) ∧
    (∀ data, (v.ends s).closed = false → (v.ends s).maxSend < data.body.length →
      v.failure A (.encrypt s data) = some (.range s!"Message exceeds {(v.ends s).maxSend} bytes")
        ∧ v.step A (.encrypt s data) = v) := by
  intro v
  have h : InStep key v := inStep_run (inStep_of_fresh hFresh) calls
  obtain ⟨hNodup, hNonce⟩ := nonces_of_inStep h s
  refine ⟨h.order s, ?_, ?_, ?_, hNodup, hNonce, ?_⟩
  · intro message m hOpen hNext hFits
    rw [h.decrypt_next hOpen hNext hFits]
  · intro message hOpen hOther
    obtain ⟨e, he⟩ := h.decrypt_other hOpen hOther
    constructor
    · simp [Link.failure, he]
    · simp [Link.step, he]
  · rintro hClosed later call rfl
    exact failure_of_closed (closed_run later hClosed)
  · intro data hOpen hSize
    constructor
    · simp [Link.failure, Link.encrypt, NoiseTransport.encrypt, hOpen, hSize]
    · simp [Link.step, Link.encrypt, NoiseTransport.encrypt, hOpen, hSize]

section OneMessage

/-- The two keys of a session. -/
def sessionKey : Side → List UInt8
  | .client => List.replicate 32 1
  | .server => List.replicate 32 2

/-- ChaCha20-Poly1305 of the frame of a one-byte binary message under the client's key and
nonce 0; elsewhere any function with 16 bytes of tag. -/
def frameAead : Aead UInt8 TAG_BYTES where
  encrypt := fun key nonce ad plaintext =>
    if key = sessionKey .client ∧ nonce = 0 ∧ ad = [] ∧ plaintext = [2, 7] then
      [3, 32, 29, 142, 79, 111, 196, 224, 38, 122, 253, 152, 23, 197, 135, 113, 238, 195]
    else plaintext ++ List.replicate TAG_BYTES 0
  length_encrypt := by
    intro key nonce ad plaintext
    by_cases h : key = sessionKey .client ∧ nonce = 0 ∧ ad = [] ∧ plaintext = [2, 7]
    · rw [if_pos h, h.2.2.2]
      rfl
    · simp [h]

/-- The link right after the handshake. -/
def newLink : Link where
  ends := fun s => ⟨.ofKey (sessionKey s), .ofKey (sessionKey s.other), 65536, 65536, false⟩
  log := []
  sent := fun _ => []
  received := fun _ => []

def oneMessage : List TransportCall :=
  [.encrypt .client (.binary [7]), .decrypt .server
    [3, 32, 29, 142, 79, 111, 196, 224, 38, 122, 253, 152, 23, 197, 135, 113, 238, 195]]

theorem transport_delivers_oneMessage :
    newLink.Fresh sessionKey ∧
      (newLink.run frameAead oneMessage).received .server = [.binary [7]] ∧
      (newLink.run frameAead oneMessage).received .server <+:
        ((newLink.run frameAead oneMessage).sent .client).map Prod.fst := by
  have hFresh : newLink.Fresh sessionKey :=
    { apart := by decide
      send := fun _ => rfl
      receive := fun _ => rfl
      closed := fun _ => rfl
      unused := nofun
      sent := fun _ => rfl
      received := fun _ => rfl }
  exact ⟨hFresh, by decide +kernel, (transport_delivers hFresh oneMessage .server).1⟩

end OneMessage

end Stim.Noise
