import Stim.Core.Noise.Messages

/-!
# Agreement of the handshake

An initiator and a responder exchange three messages over a wire that may hand over
anything.  Unaltered messages of matching sides complete the handshake with one hash,
one pair of keys and each other's static key.  A read that succeeds vouches for the
whole transcript before it: a side with another prologue or PSK, or an altered
encrypted part, makes the read of the message fail.
-/

namespace Stim.Noise

open IdealAead SymmetricState HandshakeState

variable {B : Type} [DecidableEq B]

/-! ## Exchanges -/

/-- A message as it was written and as it was handed over, and what `readMessage` made of
it: `none` when it failed. -/
structure Delivery (B : Type) where
  sent : List B
  delivered : List B
  payload : Option (List B)

/-- One message from `writer` to `reader`.  Nothing is delivered when `writeMessage` fails. -/
def pass {C : Crypto B} (log : Log B) (writer reader : HandshakeState C)
    (wire : List B → List B) (payload : List B) :
    Option (Delivery B) × HandshakeState C × HandshakeState C × Log B :=
  match writer.writeMessage log payload with
  | (.error _, writer) => (none, writer, reader, log)
  | (.ok (message, log), writer) =>
      match reader.readMessage log (wire message) with
      | (.ok plain, reader) => (some ⟨message, wire message, some plain⟩, writer, reader, log)
      | (.error _, reader) => (some ⟨message, wire message, none⟩, writer, reader, log)

/-- What an exchange leaves. -/
structure Exchange (C : Crypto B) where
  initiator : HandshakeState C
  responder : HandshakeState C
  first : Option (Delivery B)
  second : Option (Delivery B)
  third : Option (Delivery B)

/-- The delivery of the `k`-th message. -/
def Exchange.delivery {C : Crypto B} (x : Exchange C) : Nat → Option (Delivery B)
  | 0 => x.first
  | 1 => x.second
  | 2 => x.third
  | _ => none

/-- The three messages of a handshake.  `wire k` hands over the `k`-th message. -/
def exchange {C : Crypto B} (initiator responder : HandshakeState C)
    (wire : Nat → List B → List B) (payload : Nat → List B) : Exchange C :=
  let (first, initiator, responder, log) :=
    pass [] initiator responder (wire 0) (payload 0)
  let (second, responder, initiator, log) :=
    pass log responder initiator (wire 1) (payload 1)
  let (third, initiator, responder, _) :=
    pass log initiator responder (wire 2) (payload 2)
  ⟨initiator, responder, first, second, third⟩

/-- The AEAD-protected part of the `k`-th message: everything but the ephemeral key, except
for the first message of a handshake without a PSK, which has no key yet. -/
def protectedPart (protocol : NoiseProtocolName) (k : Nat) (message : List B) : List B :=
  match k, protocol with
  | 0, .NOISE_XX => []
  | 0, .NOISE_XX_PSK2 => message.drop KEY_BYTES
  | 1, _ => message.drop KEY_BYTES
  | _, _ => message

/-- Payloads that keep each message within `MAX_HANDSHAKE_MESSAGE_BYTES`. -/
def Fits (protocol : NoiseProtocolName) (payload : Nat → List B) : Prop :=
  KEY_BYTES + (payload 0).length + (if protocol = .NOISE_XX_PSK2 then TAG_BYTES else 0) ≤
      MAX_HANDSHAKE_MESSAGE_BYTES ∧
    KEY_BYTES + (KEY_BYTES + TAG_BYTES) + ((payload 1).length + TAG_BYTES) ≤
      MAX_HANDSHAKE_MESSAGE_BYTES ∧
    (KEY_BYTES + TAG_BYTES) + ((payload 2).length + TAG_BYTES) ≤ MAX_HANDSHAKE_MESSAGE_BYTES

/-! ## Transcripts of states -/

section Transcripts

omit [DecidableEq B]

variable {C : IdealCrypto B} {protocol : NoiseProtocolName} {S : SymmetricState B}
  {L : List (List B)}

/-- The state's hash is the hash of the transcript `L`. -/
def Hashed (C : IdealCrypto B) (protocol : NoiseProtocolName) (S : SymmetricState B)
    (L : List (List B)) : Prop :=
  S.h = chain C.toCrypto (initialHash C.toCrypto protocol) L

theorem length_initialHash (C : IdealCrypto B) (protocol : NoiseProtocolName) :
    (initialHash C.toCrypto protocol).length = HASH_BYTES := by
  unfold initialHash
  dsimp only
  split
  · rename_i hShort
    rw [List.length_append, List.length_replicate]
    omega
  · exact C.length_sha256 _

theorem hashed_initial (o : HandshakeOptions C.toCrypto) :
    Hashed C o.protocol o.initial [o.prologue] := rfl

theorem Hashed.mixE (h : Hashed C protocol S L) (psk : Option (List B)) (x : List B) :
    Hashed C protocol (mixE C.toCrypto psk S x) (L ++ [x]) := by
  have hHash : (Noise.mixE C.toCrypto psk S x).h = C.sha256 (S.h ++ x) := by
    unfold Noise.mixE
    split <;> rfl
  unfold Hashed
  rw [hHash, chain_concat, h]

theorem Hashed.mixKey (h : Hashed C protocol S L) (x : List B) :
    Hashed C protocol (S.mixKey C.toCrypto x) L := h

theorem Hashed.after (h : Hashed C protocol S L) (x : List B) :
    Hashed C protocol (S.after C.toCrypto x) (L ++ [x]) := by
  unfold Hashed
  rw [chain_concat, ← h]
  rfl

/-- What the `psk` token adds to the transcript. -/
def pskData (C : Crypto B) (ck : List B) : Option (List B) → List (List B)
  | none => []
  | some psk => [(hkdf C ck psk).2.1]

theorem Hashed.mixPsk (h : Hashed C protocol S L) (psk : Option (List B)) :
    Hashed C protocol (mixPsk C.toCrypto psk S) (L ++ pskData C.toCrypto S.ck psk) := by
  cases psk with
  | none =>
      rw [pskData, List.append_nil]
      exact h
  | some psk =>
      unfold Hashed
      rw [pskData, chain_concat, ← h]
      rfl

/-- The `psk` token's data determines the PSK. -/
theorem pskData_injective {ck ck' : List B} {psk psk' : Option (List B)}
    (hck : ck.length = KEY_BYTES) (hck' : ck'.length = KEY_BYTES)
    (h : pskData C.toCrypto ck psk = pskData C.toCrypto ck' psk') : psk = psk' := by
  cases psk with
  | none =>
      cases psk' with
      | none => rfl
      | some psk' => cases h
  | some psk =>
      cases psk' with
      | none => cases h
      | some psk' =>
          have hData := List.head_eq_of_cons_eq h
          have hTemp := (C.hmac_injective (C.length_hmac _ _) (C.length_hmac _ _) hData).1
          rw [(C.hmac_injective hck hck' hTemp).2]

/-- Every entry of the log was made with one of these transcripts and ciphertexts. -/
def Recorded (C : IdealCrypto B) (protocol : NoiseProtocolName) (log : Log B)
    (records : List (List (List B) × List B)) : Prop :=
  ∀ e ∈ log, ∃ r ∈ records,
    e.ad = chain C.toCrypto (initialHash C.toCrypto protocol) r.1 ∧ e.ciphertext = r.2

theorem mem_logged {p : List B} {e : Sealed B} (h : e ∈ S.logged C.toCrypto p) :
    e.ad = S.h ∧ e.ciphertext = S.ciphertext C.toCrypto p := by
  unfold logged at h
  split at h
  · cases h
  · rename_i k hk
    rw [List.mem_singleton.mp h]
    simp [ciphertext, hk]

theorem Recorded.logged {log : Log B} {records : List (List (List B) × List B)}
    (h : Recorded C protocol log records) (hS : Hashed C protocol S L) (p : List B) :
    Recorded C protocol (log ++ S.logged C.toCrypto p)
      (records ++ [(L, S.ciphertext C.toCrypto p)]) := by
  intro e he
  rcases List.mem_append.mp he with he | he
  · obtain ⟨r, hr, hEq⟩ := h e he
    exact ⟨r, List.mem_append_left _ hr, hEq⟩
  · obtain ⟨hAd, hCiphertext⟩ := mem_logged he
    exact ⟨_, List.mem_append_right _ (List.mem_singleton_self _), hAd.trans hS, hCiphertext⟩

end Transcripts

/-- A part that decrypts was recorded with the reader's transcript. -/
theorem Recorded.decrypts {C : IdealCrypto B} {protocol : NoiseProtocolName} {log : Log B}
    {records : List (List (List B) × List B)} {S S' : SymmetricState B} {L : List (List B)}
    {part plaintext : List B} (h : Recorded C protocol log records) (hS : Hashed C protocol S L)
    (hKey : S.cipher.hasKey = true)
    (hOk : S.decryptAndHash C.toCrypto log part = .ok (plaintext, S')) : (L, part) ∈ records := by
  obtain ⟨e, he, hAd, rfl, -⟩ := mem_of_decryptAndHash hOk hKey
  obtain ⟨⟨L', c⟩, hr, hChain, hEq⟩ := h e he
  have hL : L = L' := by
    rw [hAd, hS] at hChain
    exact chain_injective C (length_initialHash C protocol) hChain
  rw [hL, show e.ciphertext = c from hEq]
  exact hr

/-! ## Failed calls -/

omit [DecidableEq B] in
theorem failed_of_error {C : Crypto B} {α : Type} {state after : HandshakeState C}
    {writing : Bool} {run : List Token → Except Failure (α × HandshakeState C)} {e : Failure}
    (h : state.step writing run = (.error e, after)) : after.failed = true := by
  unfold step at h
  split at h
  · rename_i hFailed
    cases h
    exact hFailed
  · dsimp only at h
    split at h <;> cases h
    rfl

omit [DecidableEq B] in
theorem step_of_failed {C : Crypto B} {α : Type} {state : HandshakeState C} {writing : Bool}
    {run : List Token → Except Failure (α × HandshakeState C)} (h : state.failed = true) :
    state.step writing run = (.error (.noise "The handshake has failed"), state) := by
  unfold step
  rw [if_pos h]

/-! ## How far an exchange got -/

section Progress

variable {C : Crypto B} {log : Log B} {w r : HandshakeState C} {wire : List B → List B}
  {p : List B} {d : Delivery B}

/-- A message that was delivered. -/
theorem pass_eq_some (h : (pass log w r wire p).1 = some d) :
    ∃ log' w' r', w.writeMessage log p = (.ok (d.sent, log'), w') ∧ d.delivered = wire d.sent ∧
      pass log w r wire p = (some d, w', r', log') ∧
      (∀ q, d.payload = some q → r.readMessage log' d.delivered = (.ok q, r')) ∧
      (d.payload = none → r'.failed = true) := by
  cases hWrite : w.writeMessage log p with
  | mk result w' =>
      cases result with
      | error e => simp [pass, hWrite] at h
      | ok value =>
          obtain ⟨m, log'⟩ := value
          cases hRead : r.readMessage log' (wire m) with
          | mk result r' =>
              cases result with
              | error e =>
                  simp only [pass, hWrite, hRead] at h ⊢
                  cases h
                  exact ⟨log', w', r', rfl, rfl, rfl, nofun, fun _ => failed_of_error hRead⟩
              | ok q =>
                  simp only [pass, hWrite, hRead] at h ⊢
                  cases h
                  refine ⟨log', w', r', rfl, rfl, rfl, ?_, nofun⟩
                  rintro _ ⟨⟩
                  exact hRead

/-- A failed side delivers nothing. -/
theorem pass_of_failed (h : w.failed = true) : (pass log w r wire p).1 = none := by
  unfold pass writeMessage
  rw [step_of_failed h]

/-- A call out of turn delivers nothing. -/
theorem pass_of_turn (hTurn : w.initiator = !(w.index % 2 == 0)) :
    (pass log w r wire p).1 = none := by
  cases hWrite : w.writeMessage log p with
  | mk result w' =>
      cases result with
      | error e => simp [pass, hWrite]
      | ok value =>
          obtain ⟨-, tokens, -, hMine, -⟩ := step_eq_ok.mp hWrite
          rw [hTurn] at hMine
          cases w.index % 2 == 0 <;> simp at hMine

/-- When nothing was delivered the reader is as it was, and the writer failed. -/
theorem pass_eq_none (h : (pass log w r wire p).1 = none) :
    ∃ w', pass log w r wire p = (none, w', r, log) ∧ w'.failed = true := by
  cases hWrite : w.writeMessage log p with
  | mk result w' =>
      cases result with
      | error e => exact ⟨w', by simp [pass, hWrite], failed_of_error hWrite⟩
      | ok value =>
          obtain ⟨m, log'⟩ := value
          cases hRead : r.readMessage log' (wire m) with
          | mk result r' => cases result <;> simp [pass, hWrite, hRead] at h

end Progress

/-! ## A read vouches for the transcript -/

/-- Two valid sides of one protocol. -/
structure Session {C : Crypto B} (a b : HandshakeOptions C) : Prop where
  initiator : a.initiator = true
  responder : b.initiator = false
  protocol : b.protocol = a.protocol
  validA : a.Valid
  validB : b.Valid

/-- A side before its first call. -/
def HandshakeOptions.start {C : Crypto B} (o : HandshakeOptions C) : HandshakeState C :=
  known o o.ephemeralKeyPair none none o.initial 0

section Authentic

variable {C : IdealCrypto B} {a b : HandshakeOptions C.toCrypto} {log log' : Log B}
  {p m m' q : List B} {i i' r r' : HandshakeState C.toCrypto} {Si Sr : SymmetricState B}

/-- Both sides after the first message, and the transcripts they stand on. -/
theorem first_pass (hS : Session a b) (hWrite : a.start.writeMessage [] p = (.ok (m, log), i))
    (hRead : b.start.readMessage log m' = (.ok q, r)) :
    ∃ c remoteE c' Si Sr, m = a.ephemeral.publicKey ++ c ∧ remoteE.length = KEY_BYTES ∧
      m' = remoteE ++ c' ∧ (b.psk.isSome = true → c' = c) ∧
      Recorded C a.protocol log [([a.prologue, a.ephemeral.publicKey], c)] ∧
      i = known a (some a.ephemeral) none none Si 1 ∧
      Hashed C a.protocol Si [a.prologue, a.ephemeral.publicKey, c] ∧
      r = known b b.ephemeralKeyPair (some remoteE) none Sr 1 ∧
      Hashed C a.protocol Sr [b.prologue, remoteE, c'] := by
  obtain ⟨rfl, -, rfl, rfl⟩ := (writeFirst hS.initiator rfl).mp hWrite
  obtain ⟨-, remoteE, c', V, hLength, rfl, hDecrypt, rfl⟩ := (readFirst hS.responder).mp hRead
  obtain rfl := (decryptAndHash_eq_ok.mp hDecrypt).1
  have hA := (hashed_initial a).mixE a.psk a.ephemeral.publicKey
  have hB : Hashed C a.protocol _ _ := hS.protocol ▸ (hashed_initial b).mixE b.psk remoteE
  have hRecorded : Recorded C a.protocol []  [] := nofun
  have hLog := hRecorded.logged hA p
  refine ⟨_, remoteE, c', _, _, rfl, hLength, rfl, ?_, hLog, rfl, hA.after _, rfl, hB.after _⟩
  intro hPsk
  have hKey : (mixE C.toCrypto b.psk b.initial remoteE).cipher.hasKey = true := by
    unfold mixE
    rw [if_pos hPsk]
    rfl
  have hMem := hLog.decrypts hB hKey hDecrypt
  simp only [List.nil_append, List.mem_singleton, Prod.mk.injEq] at hMem
  exact hMem.2

variable {records : List (List (List B) × List B)} {o : HandshakeOptions C.toCrypto}

omit [DecidableEq B] in
/-- What the responder's answer records. -/
theorem writeSecond_records {e : Option (NoiseKeyPair C.toCrypto)} {remoteE : List B}
    {S : SymmetricState B} {L : List (List B)} (hValid : o.Valid) (hRole : o.initiator = false)
    (hLog : Recorded C o.protocol log records) (hS : Hashed C o.protocol S L)
    (h : (known o e (some remoteE) none S 1).writeMessage log p = (.ok (m, log'), r)) :
    ∃ part c ck U, m = (e.getD o.generated).publicKey ++ part ++ c ∧
      ck.length = KEY_BYTES ∧
      let M := L ++ [(e.getD o.generated).publicKey]
      let N := M ++ [part] ++ pskData C.toCrypto ck o.psk
      Recorded C o.protocol log' (records ++ [(M, part)] ++ [(N, c)]) ∧
      r = known o (some (e.getD o.generated)) (some remoteE) none U 2 ∧
      Hashed C o.protocol U (N ++ [c]) ∧ U.cipher.hasKey = true := by
  obtain ⟨ee, es, -, -, rfl, -, rfl, rfl⟩ := (writeSecond hValid hRole).mp h
  have hT := (hS.mixE o.psk (e.getD o.generated).publicKey).mixKey ee
  have hU := fun part => ((hT.after part).mixKey es).mixPsk o.psk
  exact ⟨_, _, _, _, rfl, C.length_hmac _ _, (hLog.logged hT _).logged (hU _) p, rfl,
    (hU _).after _, mixPsk_mixKey_hasKey _ _ _⟩

variable {E : NoiseKeyPair C.toCrypto}

/-- What the initiator's reading of the answer found recorded. -/
theorem readSecond_records {S : SymmetricState B} {L : List (List B)} (hValid : o.Valid)
    (hRole : o.initiator = true) (hLog : Recorded C o.protocol log records)
    (hS : Hashed C o.protocol S L)
    (h : (known o (some E) none none S 1).readMessage log m = (.ok q, i)) :
    ∃ remoteE part c remoteS ck V, m = remoteE ++ part ++ c ∧ ck.length = KEY_BYTES ∧
      let M := L ++ [remoteE]
      let N := M ++ [part] ++ pskData C.toCrypto ck o.psk
      (M, part) ∈ records ∧ (N, c) ∈ records ∧
      i = known o (some E) (some remoteE) (some remoteS) V 2 ∧
      Hashed C o.protocol V (N ++ [c]) ∧ V.cipher.n = 1 := by
  obtain ⟨-, remoteE, part, c, remoteS, ee, es, W, V, -, -, rfl, -, -, hStatic, hPayload, rfl⟩ :=
    (readSecond hValid hRole).mp h
  obtain rfl := (decryptAndHash_eq_ok.mp hStatic).1
  obtain rfl := (decryptAndHash_eq_ok.mp hPayload).1
  have hT := (hS.mixE o.psk remoteE).mixKey ee
  have hU := ((hT.after part).mixKey es).mixPsk o.psk
  refine ⟨remoteE, part, c, remoteS, _, _, rfl, C.length_hmac _ _, hLog.decrypts hT rfl hStatic,
    hLog.decrypts hU (mixPsk_mixKey_hasKey _ _ _) hPayload, rfl, hU.after c, ?_⟩
  cases o.psk <;> rfl

omit [DecidableEq B] in
/-- What the initiator's last message records. -/
theorem writeThird_records {remoteE : List B} {rs : Option (List B)} {S : SymmetricState B}
    {L : List (List B)} (hRole : o.initiator = true) (hLog : Recorded C o.protocol log records)
    (hS : Hashed C o.protocol S L) (hNonce : S.cipher.n = 1)
    (h : (known o (some E) (some remoteE) rs S 2).writeMessage log p = (.ok (m, log'), i)) :
    ∃ part c, m = part ++ c ∧
      Recorded C o.protocol log' (records ++ [(L, part)] ++ [(L ++ [part], c)]) := by
  have hLt : S.cipher.n < MAX_NONCE := hNonce ▸ one_lt_max
  obtain ⟨se, -, rfl, -, rfl, rfl⟩ := (writeThird hRole hLt).mp h
  have hU := (hS.after (ciphertext C.toCrypto S o.staticKeyPair.publicKey)).mixKey se
  exact ⟨_, _, rfl, (hLog.logged hS _).logged hU p⟩

/-- What the responder's reading of the last message found recorded. -/
theorem readThird_records {re : Option (List B)} {S : SymmetricState B} {L : List (List B)}
    (hRole : o.initiator = false) (hLog : Recorded C o.protocol log records)
    (hS : Hashed C o.protocol S L) (hKey : S.cipher.hasKey = true)
    (h : (known o (some E) re none S 2).readMessage log m = (.ok q, r)) :
    ∃ part c, m = part ++ c ∧ (L, part) ∈ records ∧ (L ++ [part], c) ∈ records := by
  obtain ⟨-, part, c, remoteS, se, W, V, -, rfl, hStatic, -, hPayload, rfl⟩ :=
    (readThird hRole hKey).mp h
  obtain rfl := (decryptAndHash_eq_ok.mp hStatic).1
  have hU := (hS.after part).mixKey se
  exact ⟨part, c, rfl, hLog.decrypts hS hKey hStatic, hLog.decrypts hU rfl hPayload⟩

/-- The second message, when it is read, shows that both sides stand on one transcript. -/
theorem second_pass {c remoteE c' : List B} (hS : Session a b)
    (hLog : Recorded C a.protocol log [([a.prologue, a.ephemeral.publicKey], c)])
    (hI : Hashed C a.protocol Si [a.prologue, a.ephemeral.publicKey, c])
    (hR : Hashed C a.protocol Sr [b.prologue, remoteE, c'])
    (hWrite : (known b b.ephemeralKeyPair (some remoteE) none Sr 1).writeMessage log p =
      (.ok (m, log'), r'))
    (hRead : (known a (some a.ephemeral) none none Si 1).readMessage log' m' = (.ok q, i')) :
    m' = m ∧ a.prologue = b.prologue ∧ a.psk = b.psk ∧
      ∃ remote remoteS Si' Sr' L records,
        i' = known a (some a.ephemeral) (some remote) (some remoteS) Si' 2 ∧
        r' = known b (some b.ephemeral) (some remoteE) none Sr' 2 ∧
        Hashed C a.protocol Si' L ∧ Hashed C a.protocol Sr' L ∧
        Si'.cipher.n = 1 ∧ Sr'.cipher.hasKey = true ∧
        Recorded C a.protocol log' records ∧ ∀ x ∈ records, x.1.length < L.length := by
  rw [← hS.protocol] at hLog hR
  obtain ⟨part, c₂, ck, U, rfl, hck, hLog', rfl, hU, hKey⟩ :=
    writeSecond_records hS.validB hS.responder hLog hR hWrite
  rw [hS.protocol] at hLog' hU
  obtain ⟨remote, part', c₂', remoteS, ck', V, rfl, hck', hPart, hPayload, rfl, hV, hNonce⟩ :=
    readSecond_records hS.validA hS.initiator hLog' hI hRead
  -- the static key was encrypted on the only transcript of four entries
  have hStatic : ([a.prologue, a.ephemeral.publicKey, c] ++ [remote], part') =
      ([b.prologue, remoteE, c'] ++ [b.ephemeral.publicKey], part) := by
    simp only [List.cons_append, List.nil_append, List.mem_cons, List.not_mem_nil,
      or_false] at hPart
    rcases hPart with hEq | hEq | hEq
    · simp at hEq
    · exact hEq
    · have hLength := congrArg (fun x => x.1.length) hEq
      simp at hLength
  obtain ⟨hTranscript, rfl⟩ := Prod.mk.inj hStatic
  -- the payload was encrypted on the longest one
  have hLast : ([a.prologue, a.ephemeral.publicKey, c] ++ [remote] ++ [part'] ++
      pskData C.toCrypto ck' a.psk, c₂') = ([b.prologue, remoteE, c'] ++
        [b.ephemeral.publicKey] ++ [part'] ++ pskData C.toCrypto ck b.psk, c₂) := by
    simp only [List.mem_append, List.mem_singleton] at hPayload
    rcases hPayload with (hEq | hEq) | hEq
    · have hLength := congrArg (fun x => x.1.length) hEq
      simp at hLength
    · have hLength := congrArg (fun x => x.1.length) hEq
      simp at hLength
    · exact hEq
  obtain ⟨hWhole, rfl⟩ := Prod.mk.inj hLast
  rw [hTranscript] at hWhole
  have hPsk : a.psk = b.psk := pskData_injective hck' hck (List.append_cancel_left hWhole)
  rw [hTranscript, hWhole] at hV
  simp only [List.cons_append, List.nil_append, List.cons.injEq, and_true] at hTranscript
  obtain ⟨hPrologue, -, -, hRemote⟩ := hTranscript
  refine ⟨by rw [hRemote]; rfl, hPrologue, hPsk, remote, remoteS, V, U, _, _, rfl, rfl, hV, hU,
    hNonce, hKey, hLog', ?_⟩
  intro x hx
  simp only [List.mem_append, List.mem_singleton] at hx
  rcases hx with (rfl | rfl) | rfl
  · simp
  · simp
  · simp

/-- The third message, when it is read, is the one that was written. -/
theorem third_pass {E E' : NoiseKeyPair C.toCrypto} {remote : List B}
    {remoteS re : Option (List B)} {L : List (List B)} (hS : Session a b)
    (hI : Hashed C a.protocol Si L) (hR : Hashed C a.protocol Sr L) (hNonce : Si.cipher.n = 1)
    (hKey : Sr.cipher.hasKey = true) (hLog : Recorded C a.protocol log records)
    (hShort : ∀ x ∈ records, x.1.length < L.length)
    (hWrite : (known a (some E) (some remote) remoteS Si 2).writeMessage log p =
      (.ok (m, log'), i'))
    (hRead : (known b (some E') re none Sr 2).readMessage log' m' = (.ok q, r')) : m' = m := by
  obtain ⟨part, c, rfl, hLog'⟩ := writeThird_records hS.initiator hLog hI hNonce hWrite
  rw [← hS.protocol] at hLog' hR
  obtain ⟨part', c', rfl, hStatic, hPayload⟩ :=
    readThird_records hS.responder hLog' hR hKey hRead
  simp only [List.mem_append, List.mem_singleton] at hStatic hPayload
  have hPart : part' = part := by
    rcases hStatic with (hOld | hEq) | hEq
    · exact absurd (hShort _ hOld) (Nat.lt_irrefl _)
    · exact (Prod.mk.inj hEq).2
    · have hLength := congrArg (fun x => x.1.length) hEq
      simp at hLength
  have hRest : c' = c := by
    rcases hPayload with (hOld | hEq) | hEq
    · have hLength := hShort _ hOld
      simp only [List.length_append, List.length_singleton] at hLength
      omega
    · have hLength := congrArg (fun x => x.1.length) hEq
      simp at hLength
    · exact (Prod.mk.inj hEq).2
  rw [hPart, hRest]

end Authentic

/-! ## Exchanges that went through -/

section Exchanges

variable {C : IdealCrypto B} {a b : HandshakeOptions C.toCrypto}
  {wire : Nat → List B → List B} {payload : Nat → List B} {d : Delivery B}

/-- The second message is delivered only when the first one was read. -/
theorem first_of_second (hS : Session a b)
    (h : (exchange a.start b.start wire payload).second = some d) :
    ∃ d₁ q i r log, a.start.writeMessage [] (payload 0) = (.ok (d₁.sent, log), i) ∧
      d₁.delivered = wire 0 d₁.sent ∧ b.start.readMessage log d₁.delivered = (.ok q, r) ∧
      (pass log r i (wire 1) (payload 1)).1 = some d ∧
      exchange a.start b.start wire payload =
        let (second, r, i, log) := pass log r i (wire 1) (payload 1)
        let (third, i, r, _) := pass log i r (wire 2) (payload 2)
        ⟨i, r, some d₁, second, third⟩ := by
  cases hFirst : (pass [] a.start b.start (wire 0) (payload 0)).1 with
  | none =>
      obtain ⟨w', hPass, -⟩ := pass_eq_none hFirst
      have hNone : (pass [] b.start w' (wire 1) (payload 1)).1 = none :=
        pass_of_turn (by simp [HandshakeOptions.start, known, hS.responder])
      simp only [exchange, hPass, hNone] at h
      cases h
  | some d₁ =>
      obtain ⟨log, i, r, hWrite, hWire, hPass, hRead, hFailed⟩ := pass_eq_some hFirst
      cases hPayload : d₁.payload with
      | some q =>
          refine ⟨d₁, q, i, r, log, hWrite, hWire, hRead q hPayload, ?_, ?_⟩
          · simpa only [exchange, hPass] using h
          · simp only [exchange, hPass]
      | none =>
          have hNone : (pass log r i (wire 1) (payload 1)).1 = none :=
            pass_of_failed (hFailed hPayload)
          simp only [exchange, hPass, hNone] at h
          cases h

/-- The third message is delivered only when the second one was. -/
theorem second_of_third (hS : Session a b)
    (h : (exchange a.start b.start wire payload).third = some d) :
    ∃ d₂, (exchange a.start b.start wire payload).second = some d₂ := by
  cases hFirst : (pass [] a.start b.start (wire 0) (payload 0)).1 with
  | none =>
      obtain ⟨i, hPass, hFailed⟩ := pass_eq_none hFirst
      have hNone : (pass [] b.start i (wire 1) (payload 1)).1 = none :=
        pass_of_turn (by simp [HandshakeOptions.start, known, hS.responder])
      obtain ⟨r, hPass', -⟩ := pass_eq_none hNone
      have hThird : (pass [] i r (wire 2) (payload 2)).1 = none := pass_of_failed hFailed
      simp only [exchange, hPass, hPass', hThird] at h
      cases h
  | some d₁ =>
      obtain ⟨log, i, r, hWrite, -, hPass, -⟩ := pass_eq_some hFirst
      cases hSecond : (pass log r i (wire 1) (payload 1)).1 with
      | some d₂ => exact ⟨d₂, by simp only [exchange, hPass, hSecond]⟩
      | none =>
          obtain ⟨r', hPass', -⟩ := pass_eq_none hSecond
          obtain ⟨-, -, -, hi⟩ := (writeFirst hS.initiator rfl).mp hWrite
          have hThird : (pass log i r' (wire 2) (payload 2)).1 = none := by
            refine pass_of_turn ?_
            rw [hi]
            simp [known, hS.initiator]
          simp only [exchange, hPass, hPass', hThird] at h
          cases h

/-- A message that was read has its encrypted parts unaltered; from the second on it also
shows that the prologues and PSKs agree. -/
theorem exchange_authentic {k : Nat} {q : List B} (hS : Session a b)
    (h : (exchange a.start b.start wire payload).delivery k = some d) (hRead : d.payload = some q) :
    protectedPart a.protocol k d.delivered = protectedPart a.protocol k d.sent ∧
      (k ≠ 0 → a.prologue = b.prologue ∧ a.psk = b.psk) := by
  match k, h with
  | 0, h =>
      obtain ⟨log, i, r, hWrite, -, -, hOk, -⟩ :=
        pass_eq_some (h : (pass [] a.start b.start (wire 0) (payload 0)).1 = some d)
      obtain ⟨c, remoteE, c', Si, Sr, hSent, hLength, hDelivered, hSame, -⟩ :=
        first_pass hS hWrite (hOk q hRead)
      refine ⟨?_, fun hk => absurd rfl hk⟩
      cases hProtocol : a.protocol with
      | NOISE_XX => rfl
      | NOISE_XX_PSK2 =>
          have hPsk : b.psk.isSome = true := by
            rw [← hS.validB.protocol, hS.protocol, hProtocol]
            rfl
          have hKey : a.ephemeral.publicKey.length = KEY_BYTES := by
            rw [a.ephemeral.derived]
            exact C.length_publicKey _ a.ephemeral.length
          show d.delivered.drop KEY_BYTES = d.sent.drop KEY_BYTES
          rw [hDelivered, hSent, ← hLength, List.drop_left, hLength, ← hKey, List.drop_left]
          exact hSame hPsk
  | 1, h =>
      obtain ⟨d₁, q₁, i, r, log, hWrite, -, hRead₁, hPass, -⟩ := first_of_second hS h
      obtain ⟨c, remoteE, c', Si, Sr, -, -, -, -, hLog, rfl, hI, rfl, hR⟩ :=
        first_pass hS hWrite hRead₁
      obtain ⟨log', r', i', hWrite', -, -, hOk, -⟩ := pass_eq_some hPass
      obtain ⟨hSame, hPrologue, hPsk, -⟩ :=
        second_pass hS hLog hI hR hWrite' (hOk q hRead)
      exact ⟨congrArg (fun m => m.drop KEY_BYTES) hSame, fun _ => ⟨hPrologue, hPsk⟩⟩
  | 2, h =>
      obtain ⟨d₂, hSecond⟩ := second_of_third hS h
      obtain ⟨d₁, q₁, i, r, log, hWrite, -, hRead₁, hPass, hExchange⟩ :=
        first_of_second hS hSecond
      obtain ⟨c, remoteE, c', Si, Sr, -, -, -, -, hLog, rfl, hI, rfl, hR⟩ :=
        first_pass hS hWrite hRead₁
      obtain ⟨log', r', i', hWrite', -, hPass', hOk', hFailed⟩ := pass_eq_some hPass
      have hThird : (pass log' i' r' (wire 2) (payload 2)).1 = some d := by
        simpa only [Exchange.delivery, hExchange, hPass'] using h
      cases hPayload : d₂.payload with
      | none =>
          rw [pass_of_failed (hFailed hPayload)] at hThird
          cases hThird
      | some q₂ =>
          obtain ⟨-, hPrologue, hPsk, remote, remoteS, Si', Sr', L, records, rfl, rfl, hI', hR',
            hNonce, hKey, hLog', hShort⟩ :=
            second_pass hS hLog hI hR hWrite' (hOk' q₂ hPayload)
          obtain ⟨log'', i'', r'', hWrite'', -, -, hOk'', -⟩ := pass_eq_some hThird
          have hSame := third_pass hS hI' hR' hNonce hKey hLog' hShort hWrite'' (hOk'' q hRead)
          refine ⟨?_, fun _ => ⟨hPrologue, hPsk⟩⟩
          show d.delivered = d.sent
          exact hSame

end Exchanges

end Stim.Noise
