import Stim.Core.Noise.Agreement
import Mathlib.Logic.Equiv.List

/-!
# Completed handshakes

Sides that match and whose messages arrive unaltered run in lockstep: after every
message both stand on one symmetric state.  Together with what a read vouches for
this gives the agreement of the handshake, and `#step` makes its failures final.
-/

namespace Stim.Noise

open IdealAead SymmetricState HandshakeState

variable {B : Type}

/-! ## Keys -/

section Keys

variable {C : IdealCrypto B}

theorem NoiseKeyPair.length_publicKey (k : NoiseKeyPair C.toCrypto) :
    k.publicKey.length = KEY_BYTES := by
  rw [k.derived]
  exact C.length_publicKey _ k.length

/-- Two key pairs share a secret. -/
theorem NoiseKeyPair.exists_secret (k l : NoiseKeyPair C.toCrypto) :
    ∃ secret, C.dh k.privateKey l.publicKey = some secret ∧
      C.dh l.privateKey k.publicKey = some secret := by
  have hDefined := C.dh_defined k.privateKey l.privateKey k.length l.length
  obtain ⟨secret, hSecret⟩ := Option.ne_none_iff_exists'.mp hDefined
  refine ⟨secret, ?_, ?_⟩
  · rw [l.derived]
    exact hSecret
  · rw [k.derived, ← C.dh_comm _ _ k.length l.length]
    exact hSecret

end Keys

/-! ## Writing -/

section Writing

variable {C : IdealCrypto B} {o a b : HandshakeOptions C.toCrypto}
  {S : SymmetricState B} {p : List B}

/-- What a PSK adds to the first message. -/
theorem length_firstCiphertext (hValid : o.Valid) (publicKey : List B) :
    ((mixE C.toCrypto o.psk o.initial publicKey).ciphertext C.toCrypto p).length =
      p.length + if o.protocol = .NOISE_XX_PSK2 then TAG_BYTES else 0 := by
  have hKey : (mixE C.toCrypto o.psk o.initial publicKey).cipher.hasKey = o.psk.isSome := by
    unfold mixE
    cases o.psk <;> rfl
  rw [length_ciphertext, hKey, ← hValid.protocol]
  simp only [decide_eq_true_eq]

/-- The initiator's first message is written. -/
theorem first_written (hValid : a.Valid) (hRole : a.initiator = true)
    (hSize : KEY_BYTES + p.length + (if a.protocol = .NOISE_XX_PSK2 then TAG_BYTES else 0) ≤
      MAX_HANDSHAKE_MESSAGE_BYTES) :
    let T := mixE C.toCrypto a.psk a.initial a.ephemeral.publicKey
    let c := T.ciphertext C.toCrypto p
    (a.ephemeral.publicKey ++ c).length ≤ MAX_HANDSHAKE_MESSAGE_BYTES ∧
      a.start.writeMessage [] p = (.ok (a.ephemeral.publicKey ++ c, T.logged C.toCrypto p),
        known a (some a.ephemeral) none none (T.after C.toCrypto c) 1) := by
  intro T c
  have hLength : (a.ephemeral.publicKey ++ c).length ≤ MAX_HANDSHAKE_MESSAGE_BYTES := by
    rw [List.length_append, a.ephemeral.length_publicKey, length_firstCiphertext hValid]
    omega
  exact ⟨hLength, (writeFirst hRole rfl).mpr ⟨rfl, hLength, rfl, rfl⟩⟩

/-- The responder answers whatever came with the initiator's ephemeral key. -/
theorem second_written {k : NoiseKeyPair C.toCrypto} (log : Log B) (hValid : b.Valid)
    (hRole : b.initiator = false)
    (hSize : KEY_BYTES + (KEY_BYTES + TAG_BYTES) + (p.length + TAG_BYTES) ≤
      MAX_HANDSHAKE_MESSAGE_BYTES) :
    ∃ ee es, C.dh k.privateKey b.ephemeral.publicKey = some ee ∧
      C.dh k.privateKey b.staticKeyPair.publicKey = some es ∧
      let T := (mixE C.toCrypto b.psk S b.ephemeral.publicKey).mixKey C.toCrypto ee
      let part := T.ciphertext C.toCrypto b.staticKeyPair.publicKey
      let U := mixPsk C.toCrypto b.psk ((T.after C.toCrypto part).mixKey C.toCrypto es)
      let c := U.ciphertext C.toCrypto p
      part.length = KEY_BYTES + TAG_BYTES ∧
      (b.ephemeral.publicKey ++ part ++ c).length ≤ MAX_HANDSHAKE_MESSAGE_BYTES ∧
      (known b b.ephemeralKeyPair (some k.publicKey) none S 1).writeMessage log p =
        (.ok (b.ephemeral.publicKey ++ part ++ c,
          log ++ T.logged C.toCrypto b.staticKeyPair.publicKey ++ U.logged C.toCrypto p),
        known b (some b.ephemeral) (some k.publicKey) none (U.after C.toCrypto c) 2) := by
  obtain ⟨ee, hee, hee'⟩ := k.exists_secret b.ephemeral
  obtain ⟨es, hes, hes'⟩ := k.exists_secret b.staticKeyPair
  refine ⟨ee, es, hee, hes, ?_⟩
  intro T part U c
  have hPart : part.length = KEY_BYTES + TAG_BYTES := by
    rw [length_ciphertext, b.staticKeyPair.length_publicKey]
    rfl
  have hRest : c.length = p.length + TAG_BYTES := by
    rw [length_ciphertext, if_pos (mixPsk_mixKey_hasKey _ _ _)]
  have hLength : (b.ephemeral.publicKey ++ part ++ c).length ≤ MAX_HANDSHAKE_MESSAGE_BYTES := by
    rw [List.length_append, List.length_append, b.ephemeral.length_publicKey, hPart, hRest]
    exact hSize
  exact ⟨hPart, hLength, (writeSecond hValid hRole).mpr
    ⟨ee, es, hee', hes', rfl, hLength, rfl, rfl⟩⟩

/-- The initiator's last message is written once it knows the responder's keys. -/
theorem third_written {E k : NoiseKeyPair C.toCrypto} (log : Log B) (rs : Option (List B))
    (hRole : a.initiator = true) (hNonce : S.cipher.n = 1) (hKey : S.cipher.hasKey = true)
    (hSize : (KEY_BYTES + TAG_BYTES) + (p.length + TAG_BYTES) ≤ MAX_HANDSHAKE_MESSAGE_BYTES) :
    ∃ se, C.dh k.privateKey a.staticKeyPair.publicKey = some se ∧
      let part := S.ciphertext C.toCrypto a.staticKeyPair.publicKey
      let U := (S.after C.toCrypto part).mixKey C.toCrypto se
      let c := U.ciphertext C.toCrypto p
      part.length = KEY_BYTES + TAG_BYTES ∧
      (part ++ c).length ≤ MAX_HANDSHAKE_MESSAGE_BYTES ∧
      (known a (some E) (some k.publicKey) rs S 2).writeMessage log p =
        (.ok (part ++ c,
          log ++ S.logged C.toCrypto a.staticKeyPair.publicKey ++ U.logged C.toCrypto p),
        known a (some E) (some k.publicKey) rs (U.after C.toCrypto c) 3) := by
  obtain ⟨se, hse, hse'⟩ := k.exists_secret a.staticKeyPair
  refine ⟨se, hse, ?_⟩
  intro part U c
  have hPart : part.length = KEY_BYTES + TAG_BYTES := by
    rw [length_ciphertext, a.staticKeyPair.length_publicKey, if_pos hKey]
  have hRest : c.length = p.length + TAG_BYTES := by
    rw [length_ciphertext]
    rfl
  have hLength : (part ++ c).length ≤ MAX_HANDSHAKE_MESSAGE_BYTES := by
    rw [List.length_append, hPart, hRest]
    exact hSize
  have hLt : S.cipher.n < MAX_NONCE := hNonce ▸ one_lt_max
  exact ⟨hPart, hLength, (writeThird hRole hLt).mpr ⟨se, hse', rfl, hLength, rfl, rfl⟩⟩

end Writing

/-! ## Lockstep -/

section Lockstep

variable [DecidableEq B] {C : IdealCrypto B} {a b : HandshakeOptions C.toCrypto} {log : Log B}
  {S : SymmetricState B} {p : List B}

/-- A session whose sides have one prologue and one PSK. -/
structure Matching (a b : HandshakeOptions C.toCrypto) : Prop extends Session a b where
  prologue : a.prologue = b.prologue
  psk : a.psk = b.psk

theorem zero_lt_max : 0 < MAX_NONCE := Nat.lt_trans Nat.zero_lt_one one_lt_max

omit [DecidableEq B] in
theorem Matching.initial (h : Matching a b) : a.initial = b.initial := by
  unfold HandshakeOptions.initial
  rw [h.prologue, h.protocol]

theorem first_read (h : Matching a b)
    (hSize : KEY_BYTES + p.length + (if a.protocol = .NOISE_XX_PSK2 then TAG_BYTES else 0) ≤
      MAX_HANDSHAKE_MESSAGE_BYTES) :
    ∃ m log T, Faithful C.toCrypto log ∧
      a.start.writeMessage [] p = (.ok (m, log), known a (some a.ephemeral) none none T 1) ∧
      b.start.readMessage log m =
        (.ok p, known b b.ephemeralKeyPair (some a.ephemeral.publicKey) none T 1) := by
  obtain ⟨hLength, hWrite⟩ := first_written (C := C) h.validA h.initiator hSize
  have hEmpty : Faithful C.toCrypto [] := nofun
  have hFaithful := faithful_logged
    (S := mixE C.toCrypto a.psk a.initial a.ephemeral.publicKey) hEmpty p
  refine ⟨_, _, _, hFaithful, hWrite, (readFirst h.responder).mpr
    ⟨hLength, _, _, _, a.ephemeral.length_publicKey, rfl, ?_, rfl⟩⟩
  rw [← h.psk, ← h.initial]
  refine decryptAndHash_of_logged hFaithful (fun e he => he) ?_
  exact Nat.lt_of_le_of_lt (mixE_n _ _ _) zero_lt_max

theorem second_read (h : Matching a b) (hFaithful : Faithful C.toCrypto log)
    (hSize : KEY_BYTES + (KEY_BYTES + TAG_BYTES) + (p.length + TAG_BYTES) ≤
      MAX_HANDSHAKE_MESSAGE_BYTES) :
    ∃ m log' T, Faithful C.toCrypto log' ∧ T.cipher.n = 1 ∧ T.cipher.hasKey = true ∧
      (known b b.ephemeralKeyPair (some a.ephemeral.publicKey) none S 1).writeMessage log p =
        (.ok (m, log'), known b (some b.ephemeral) (some a.ephemeral.publicKey) none T 2) ∧
      (known a (some a.ephemeral) none none S 1).readMessage log' m =
        (.ok p, known a (some a.ephemeral) (some b.ephemeral.publicKey)
          (some b.staticKeyPair.publicKey) T 2) := by
  obtain ⟨ee, es, hee, hes, hPart, hLength, hWrite⟩ :=
    second_written (k := a.ephemeral) (S := S) log h.validB h.responder hSize
  have hStatic := faithful_logged (S := (mixE C.toCrypto b.psk S b.ephemeral.publicKey).mixKey
    C.toCrypto ee) hFaithful b.staticKeyPair.publicKey
  have hAll := fun U => faithful_logged (S := U) hStatic p
  have hOpen := fun U => decryptAndHash_of_logged (hAll U)
    (fun e he => List.mem_append_left _ (List.mem_append_right _ he)) zero_lt_max
  refine ⟨_, _, _, hAll _, ?_, ?_, hWrite, ?_⟩
  · cases b.psk <;> rfl
  · cases b.psk <;> rfl
  · rw [readSecond h.validA h.initiator, h.psk]
    refine ⟨hLength, _, _, _, _, ee, es, _, _, b.ephemeral.length_publicKey, hPart, rfl, hee, hes,
      hOpen _, ?_, rfl⟩
    refine decryptAndHash_of_logged (hAll _) (fun e he => List.mem_append_right _ he) ?_
    rw [mixPsk_mixKey_n]
    exact zero_lt_max

theorem third_read (h : Matching a b) (hFaithful : Faithful C.toCrypto log)
    (hNonce : S.cipher.n = 1) (hKey : S.cipher.hasKey = true)
    (hSize : (KEY_BYTES + TAG_BYTES) + (p.length + TAG_BYTES) ≤ MAX_HANDSHAKE_MESSAGE_BYTES) :
    ∃ m log' T,
      (known a (some a.ephemeral) (some b.ephemeral.publicKey) (some b.staticKeyPair.publicKey) S
        2).writeMessage log p = (.ok (m, log'), known a (some a.ephemeral)
          (some b.ephemeral.publicKey) (some b.staticKeyPair.publicKey) T 3) ∧
      (known b (some b.ephemeral) (some a.ephemeral.publicKey) none S 2).readMessage log' m =
        (.ok p, known b (some b.ephemeral) (some a.ephemeral.publicKey)
          (some a.staticKeyPair.publicKey) T 3) := by
  obtain ⟨se, hse, hPart, hLength, hWrite⟩ := third_written (E := a.ephemeral) (k := b.ephemeral)
    log (some b.staticKeyPair.publicKey) h.initiator hNonce hKey hSize
  have hStatic := faithful_logged (S := S) hFaithful a.staticKeyPair.publicKey
  have hAll := fun U => faithful_logged (S := U) hStatic p
  have hOpen := fun U => decryptAndHash_of_logged (hAll U)
    (fun e he => List.mem_append_left _ (List.mem_append_right _ he)) (hNonce ▸ one_lt_max)
  refine ⟨_, _, _, hWrite, (readThird h.responder hKey).mpr
    ⟨hLength, _, _, _, se, _, _, hPart, rfl, hOpen _, hse, ?_, rfl⟩⟩
  exact decryptAndHash_of_logged (hAll _) (fun e he => List.mem_append_right _ he) zero_lt_max

end Lockstep

/-! ## Exchanges -/

section Exchanges

variable [DecidableEq B]

/-- What both sides have after an exchange that went through. -/
structure Agreed {C : Crypto B} (a b : HandshakeOptions C) (payload : Nat → List B)
    (x : Exchange C) : Prop where
  received : ∀ k < 3, ∃ m, x.delivery k = some ⟨m, m, some (payload k)⟩
  complete : x.initiator.isComplete = true ∧ x.responder.isComplete = true
  remote : x.initiator.remoteStaticPublicKey = some b.staticKeyPair.publicKey ∧
    x.responder.remoteStaticPublicKey = some a.staticKeyPair.publicKey
  hash : ∃ h, x.initiator.handshakeHash = .ok h ∧ x.responder.handshakeHash = .ok h
  split : ∃ send receive, x.initiator.split.1 = .ok (send, receive) ∧
    x.responder.split.1 = .ok (receive, send)

omit [DecidableEq B] in
theorem isComplete_known {C : Crypto B} (o : HandshakeOptions C) (e : Option (NoiseKeyPair C))
    (re rs : Option (List B)) (S : SymmetricState B) : (known o e re rs S 3).isComplete = true := by
  obtain ⟨protocol, -⟩ := o
  cases protocol <;> rfl

omit [DecidableEq B] in
theorem split_known {C : Crypto B} (o : HandshakeOptions C) (e : Option (NoiseKeyPair C))
    (re rs : Option (List B)) (S : SymmetricState B) :
    (known o e re rs S 3).split.1 = .ok (if o.initiator then S.split C
      else ((S.split C).2, (S.split C).1)) := by
  unfold HandshakeState.split
  rw [isComplete_known]
  rfl

theorem pass_of_ok {C : Crypto B} {log log' : Log B} {w w' r r' : HandshakeState C}
    {p m q : List B} (wire : List B → List B) (hWrite : w.writeMessage log p = (.ok (m, log'), w'))
    (hRead : r.readMessage log' (wire m) = (.ok q, r')) :
    pass log w r wire p = (some ⟨m, wire m, some q⟩, w', r', log') := by
  simp only [pass, hWrite, hRead]

/-- A written message is delivered. -/
theorem pass_of_written {C : Crypto B} {log log' : Log B} {w w' : HandshakeState C}
    {p m : List B} (r : HandshakeState C) (wire : List B → List B)
    (hWrite : w.writeMessage log p = (.ok (m, log'), w')) :
    ∃ d, (pass log w r wire p).1 = some d ∧ d.delivered = wire d.sent := by
  cases hPass : (pass log w r wire p).1 with
  | some d =>
      obtain ⟨-, -, -, -, hWire, -⟩ := pass_eq_some hPass
      exact ⟨d, rfl, hWire⟩
  | none =>
      cases hRead : r.readMessage log' (wire m) with
      | mk result r' => cases result <;> simp [pass, hWrite, hRead] at hPass

variable {C : IdealCrypto B} {a b : HandshakeOptions C.toCrypto} {wire : Nat → List B → List B}
  {payload : Nat → List B}

/-- Unaltered messages of matching sides. -/
theorem exchange_agreed (h : Matching a b) (hFits : Fits a.protocol payload) :
    Agreed a b payload (exchange a.start b.start (fun _ m => m) payload) := by
  obtain ⟨m₁, log₁, S₁, hFaithful₁, hWrite₁, hRead₁⟩ := first_read h hFits.1
  obtain ⟨m₂, log₂, S₂, hFaithful₂, hNonce, hKey, hWrite₂, hRead₂⟩ :=
    second_read (S := S₁) h hFaithful₁ hFits.2.1
  obtain ⟨m₃, log₃, S₃, hWrite₃, hRead₃⟩ := third_read h hFaithful₂ hNonce hKey hFits.2.2
  have hExchange : exchange a.start b.start (fun _ m => m) payload =
      ⟨known a (some a.ephemeral) (some b.ephemeral.publicKey)
          (some b.staticKeyPair.publicKey) S₃ 3,
        known b (some b.ephemeral) (some a.ephemeral.publicKey)
          (some a.staticKeyPair.publicKey) S₃ 3,
        some ⟨m₁, m₁, some (payload 0)⟩, some ⟨m₂, m₂, some (payload 1)⟩,
        some ⟨m₃, m₃, some (payload 2)⟩⟩ := by
    have hFirst := pass_of_ok (fun m => m) hWrite₁ hRead₁
    have hSecond := pass_of_ok (fun m => m) hWrite₂ hRead₂
    have hThird := pass_of_ok (fun m => m) hWrite₃ hRead₃
    simp only [exchange, hFirst, hSecond, hThird]
  rw [hExchange]
  refine ⟨?_, ⟨isComplete_known .., isComplete_known ..⟩, ⟨rfl, rfl⟩, ⟨S₃.h, ?_, ?_⟩,
    (S₃.split C.toCrypto).1, (S₃.split C.toCrypto).2, ?_, ?_⟩
  · intro k hk
    obtain rfl | rfl | rfl : k = 0 ∨ k = 1 ∨ k = 2 := by omega
    · exact ⟨m₁, rfl⟩
    · exact ⟨m₂, rfl⟩
    · exact ⟨m₃, rfl⟩
  · simp only [handshakeHash, isComplete_known, if_true]
    rfl
  · simp only [handshakeHash, isComplete_known, if_true]
    rfl
  · rw [split_known, h.initiator]
    rfl
  · rw [split_known, h.responder]
    rfl

/-- Every message up to the first altered one is delivered. -/
theorem exists_delivery (h : Matching a b) (hFits : Fits a.protocol payload) {k : Nat} (hk : k < 3)
    (hWire : ∀ j < k, ∀ m, wire j m = m) :
    ∃ d, (exchange a.start b.start wire payload).delivery k = some d ∧
      d.delivered = wire k d.sent := by
  obtain ⟨m₁, log₁, S₁, hFaithful₁, hWrite₁, hRead₁⟩ := first_read h hFits.1
  obtain ⟨m₂, log₂, S₂, hFaithful₂, hNonce, hKey, hWrite₂, hRead₂⟩ :=
    second_read (S := S₁) h hFaithful₁ hFits.2.1
  obtain ⟨m₃, log₃, S₃, hWrite₃, -⟩ := third_read h hFaithful₂ hNonce hKey hFits.2.2
  have hFirst : 0 < k → pass [] a.start b.start (wire 0) (payload 0) = _ := fun h0 =>
    pass_of_ok _ hWrite₁ (by rw [hWire 0 h0]; exact hRead₁)
  have hSecond : 1 < k → pass log₁ _ _ (wire 1) (payload 1) = _ := fun h1 =>
    pass_of_ok _ hWrite₂ (by rw [hWire 1 h1]; exact hRead₂)
  match k, hk with
  | 0, _ =>
      obtain ⟨d, hPass, hDelivered⟩ := pass_of_written b.start (wire 0) hWrite₁
      exact ⟨d, by simp only [Exchange.delivery, exchange, hPass], hDelivered⟩
  | 1, _ =>
      obtain ⟨d, hPass, hDelivered⟩ := pass_of_written
        (known a (some a.ephemeral) none none S₁ 1) (wire 1) hWrite₂
      exact ⟨d, by simp only [Exchange.delivery, exchange, hFirst (by omega), hPass], hDelivered⟩
  | 2, _ =>
      obtain ⟨d, hPass, hDelivered⟩ := pass_of_written
        (known b (some b.ephemeral) (some a.ephemeral.publicKey) none S₂ 2) (wire 2)
        hWrite₃
      exact ⟨d, by simp only [Exchange.delivery, exchange, hFirst (by omega), hSecond (by omega),
        hPass], hDelivered⟩

/-- Sides that do not match: the first or the second message is not read. -/
theorem exchange_mismatch (hS : Session a b) (hFits : Fits a.protocol payload)
    (hMismatch : a.prologue ≠ b.prologue ∨ a.psk ≠ b.psk) :
    ∃ k d, (exchange a.start b.start (fun _ m => m) payload).delivery k = some d ∧
      d.payload = none := by
  obtain ⟨-, hWrite⟩ := first_written (C := C) hS.validA hS.initiator hFits.1
  obtain ⟨d, hFirst, hDelivered⟩ := pass_of_written b.start (fun m => m) hWrite
  cases hPayload : d.payload with
  | none => exact ⟨0, d, by simp only [Exchange.delivery, exchange, hFirst], hPayload⟩
  | some q =>
      obtain ⟨log, i, r, hWrite', -, hPass, hRead, -⟩ := pass_eq_some hFirst
      -- the responder has the initiator's ephemeral key
      obtain ⟨c, remoteE, c', Si, Sr, hSent, hLength, hDelivered', -, -, rfl, -, rfl, -⟩ :=
        first_pass hS hWrite' (hRead q hPayload)
      obtain ⟨rfl, rfl⟩ : a.ephemeral.publicKey = remoteE ∧ c = c' := by
        have hEq : a.ephemeral.publicKey ++ c = remoteE ++ c' := by
          rw [← hSent, ← hDelivered', hDelivered]
        exact List.append_inj hEq (by rw [hLength, a.ephemeral.length_publicKey])
      obtain ⟨ee, es, -, -, -, -, hAnswer⟩ := second_written (k := a.ephemeral) (S := Sr) log
        hS.validB hS.responder hFits.2.1
      obtain ⟨d', hSecond, -⟩ := pass_of_written
        (known a (some a.ephemeral) none none Si 1) (fun m => m) hAnswer
      have hDelivery : (exchange a.start b.start (fun _ m => m) payload).delivery 1 = some d' := by
        simp only [Exchange.delivery, exchange, hPass, hSecond]
      refine ⟨1, d', hDelivery, ?_⟩
      by_contra hNone
      obtain ⟨q', hq'⟩ := Option.ne_none_iff_exists'.mp hNone
      obtain ⟨hPrologue, hPsk⟩ := (exchange_authentic hS hDelivery hq').2 (by decide)
      exact hMismatch.elim (fun hNe => hNe hPrologue) (fun hNe => hNe hPsk)

end Exchanges

/-! ## Calls of one side -/

section Calls

variable [DecidableEq B] {C : Crypto B}

/-- A call of one side, with the log at that time. -/
inductive HandshakeCall (B : Type) where
  | writeMessage (log : Log B) (payload : List B)
  | readMessage (log : Log B) (message : List B)
  | split

/-- Whether a call returns, and the state after it. -/
def HandshakeState.call (state : HandshakeState C) :
    HandshakeCall B → Bool × HandshakeState C
  | .writeMessage log payload =>
      let (result, after) := state.writeMessage log payload
      (result.isOk, after)
  | .readMessage log message =>
      let (result, after) := state.readMessage log message
      (result.isOk, after)
  | .split =>
      let (result, after) := state.split
      (result.isOk, after)

/-- Whether a message is left, and it is this side's turn to write or read it. -/
def HandshakeState.inTurn (state : HandshakeState C) : HandshakeCall B → Bool
  | .writeMessage _ _ =>
      state.messages[state.index]?.isSome && state.initiator == (state.index % 2 == 0)
  | .readMessage _ _ =>
      state.messages[state.index]?.isSome && state.initiator != (state.index % 2 == 0)
  | .split => false

/-- Which of a side's calls return. -/
def HandshakeState.calls (state : HandshakeState C) : List (HandshakeCall B) → List Bool
  | [] => []
  | c :: rest => (state.call c).1 :: (state.call c).2.calls rest

variable {state : HandshakeState C}

/-- A failed side fails every call. -/
theorem call_of_failed (h : state.failed = true) (c : HandshakeCall B) :
    state.call c = (false, state) := by
  cases c with
  | writeMessage log payload =>
      simp only [call, HandshakeState.writeMessage, step_of_failed h]
      rfl
  | readMessage log message =>
      simp only [call, HandshakeState.readMessage, step_of_failed h]
      rfl
  | split =>
      simp only [call, HandshakeState.split, h, Bool.true_or, if_true]
      rfl

theorem calls_of_failed (h : state.failed = true) (later : List (HandshakeCall B)) :
    ∀ returned ∈ state.calls later, returned = false := by
  induction later with
  | nil => nofun
  | cons c rest ih =>
      rw [HandshakeState.calls, call_of_failed h]
      intro returned hMem
      rcases List.mem_cons.mp hMem with rfl | hMem
      · rfl
      · exact ih returned hMem

/-- A message call that fails marks its side as failed. -/
theorem failed_of_call {c : HandshakeCall B} (hCall : c ≠ .split) (h : (state.call c).1 = false) :
    (state.call c).2.failed = true := by
  cases c with
  | writeMessage log payload =>
      cases hResult : state.writeMessage log payload with
      | mk result after =>
          simp only [call, hResult] at h ⊢
          cases result with
          | error e => exact failed_of_error hResult
          | ok value => cases h
  | readMessage log message =>
      cases hResult : state.readMessage log message with
      | mk result after =>
          simp only [call, hResult] at h ⊢
          cases result with
          | error e => exact failed_of_error hResult
          | ok value => cases h
  | split => exact absurd rfl hCall

omit [DecidableEq B] in
/-- A step that is out of turn, or after the last message, fails. -/
theorem step_of_out {α : Type} {writing : Bool}
    {run : List Token → Except Failure (α × HandshakeState C)}
    (h : ∀ tokens, state.messages[state.index]? = some tokens →
      writing ≠ (state.initiator == (state.index % 2 == 0))) :
    (state.step writing run).1.isOk = false := by
  unfold HandshakeState.step
  split
  · rfl
  · cases hTokens : state.messages[state.index]? with
    | none => rfl
    | some tokens =>
        simp only [if_pos (h tokens hTokens)]
        rfl

theorem call_of_out {c : HandshakeCall B} (hCall : c ≠ .split) (h : state.inTurn c = false) :
    (state.call c).1 = false := by
  cases c with
  | writeMessage log payload =>
      refine step_of_out fun tokens hTokens hTurn => ?_
      simp [HandshakeState.inTurn, hTokens, ← hTurn] at h
  | readMessage log message =>
      refine step_of_out fun tokens hTokens hTurn => ?_
      simp [HandshakeState.inTurn, hTokens, bne, ← hTurn] at h
  | split => exact absurd rfl hCall

theorem call_split_of_out (h : state.isComplete = false ∨ state.splitDone = true) :
    state.call .split = (false, state) := by
  simp only [HandshakeState.call, HandshakeState.split]
  rcases h with hEarly | hAgain
  · rw [hEarly, Bool.not_false, Bool.or_true, if_pos rfl]
    rfl
  · split
    · rfl
    · rfl

end Calls

/-! ## The handshake -/

section Handshake

variable [DecidableEq B] {C : IdealCrypto B}

/-- For every pair of valid sides of one protocol and payloads that fit: unaltered messages
of matching sides complete with agreement; sides with other prologues or PSKs do not get
past a read; an altered encrypted part is refused where it is read, and it is read when
nothing before it was altered; a message call out of turn or after the last message fails, a
message call that fails is the last that can return, and a split that is too early or a
second one fails and changes nothing. -/
theorem handshake_agreement {a b : HandshakeOptions C.toCrypto}
    {i r : HandshakeState C.toCrypto} {payload : Nat → List B}
    (hInitiator : HandshakeState.new a = .ok i) (hResponder : HandshakeState.new b = .ok r)
    (hRoles : a.initiator = true ∧ b.initiator = false) (hProtocol : b.protocol = a.protocol)
    (hFits : Fits a.protocol payload) :
    (a.prologue = b.prologue → a.psk = b.psk →
      Agreed a b payload (exchange i r (fun _ m => m) payload)) ∧
    (a.prologue ≠ b.prologue ∨ a.psk ≠ b.psk →
      ∃ k d, (exchange i r (fun _ m => m) payload).delivery k = some d ∧ d.payload = none) ∧
    (∀ wire k d, (exchange i r wire payload).delivery k = some d →
      protectedPart a.protocol k d.delivered ≠ protectedPart a.protocol k d.sent →
      d.payload = none) ∧
    (a.prologue = b.prologue → a.psk = b.psk → ∀ wire, ∀ k < 3,
      (∀ j < k, ∀ m, wire j m = m) →
      ∃ d, (exchange i r wire payload).delivery k = some d ∧ d.delivered = wire k d.sent) ∧
    (∀ (state : HandshakeState C.toCrypto) (c : HandshakeCall B) (later : List (HandshakeCall B)),
      c ≠ .split → (state.call c).1 = false →
      ∀ returned ∈ (state.call c).2.calls later, returned = false) ∧
    (∀ (state : HandshakeState C.toCrypto) (c : HandshakeCall B),
      c ≠ .split → state.inTurn c = false → (state.call c).1 = false) ∧
    (∀ state : HandshakeState C.toCrypto, state.isComplete = false ∨ state.splitDone = true →
      state.call .split = (false, state)) := by
  obtain ⟨hValidA, rfl⟩ := new_eq_ok.mp hInitiator
  obtain ⟨hValidB, rfl⟩ := new_eq_ok.mp hResponder
  have hS : Session a b := ⟨hRoles.1, hRoles.2, hProtocol, hValidA, hValidB⟩
  refine ⟨?_, exchange_mismatch hS hFits, ?_, ?_, ?_, fun _ _ => call_of_out,
    fun _ => call_split_of_out⟩
  · intro hPrologue hPsk
    exact exchange_agreed ⟨hS, hPrologue, hPsk⟩ hFits
  · intro wire k d hDelivery hAltered
    by_contra hNone
    obtain ⟨q, hq⟩ := Option.ne_none_iff_exists'.mp hNone
    exact hAltered (exchange_authentic hS hDelivery hq).1
  · intro hPrologue hPsk wire k hk hWire
    exact exists_delivery ⟨hS, hPrologue, hPsk⟩ hFits hk hWire
  · intro state c later hCall hFailed
    exact calls_of_failed (failed_of_call hCall hFailed) later

end Handshake

/-! ## Ideal primitives over the naturals -/

section Numbers

/-- 32 numbers, of which the first stands for everything. -/
def digest (n : Nat) : List Nat := n :: List.replicate 31 0

theorem digest_injective : Function.Injective digest := by
  intro m n h
  exact List.head_eq_of_cons_eq h

theorem head_lt_encode (n : Nat) (l : List Nat) : n < Encodable.encode (n :: l) := by
  rw [Encodable.encode_list_cons]
  have hPair := Nat.left_le_pair (Encodable.encode n) (Encodable.encode l)
  have hEncode : Encodable.encode n = n := rfl
  omega

def numbers : IdealCrypto Nat where
  byte b := b.toNat
  publicKey a := a
  dh a b := some (List.zipWith (· + ·) a b)
  sha256 x := digest (Encodable.encode x)
  hmac k x := digest (Encodable.encode (k, x))
  aead :=
    { encrypt := fun key nonce ad x =>
        x ++ Encodable.encode (key, nonce, ad) :: List.replicate 15 0
      length_encrypt := fun _ _ _ _ => by simp [TAG_BYTES] }
  length_publicKey _ h := h
  dh_comm a b _ _ := by rw [List.zipWith_comm_of_comm (fun x y => Nat.add_comm x y)]
  dh_defined _ _ _ _ := nofun
  length_sha256 _ := by simp [digest, HASH_BYTES]
  length_hmac _ _ := by simp [digest, HASH_BYTES]
  sha256_injective _ _ h := Encodable.encode_injective (digest_injective h)
  hmac_injective _ _ h := by simpa using Encodable.encode_injective (digest_injective h)
  rank h := h.headD 0
  rank_lt h x hLength := by
    cases h with
    | nil => cases hLength
    | cons n l => exact head_lt_encode n (l ++ x)
  encrypt_injective h := List.append_cancel_right h

/-- A key pair of the given digit. -/
def digitPair (n : Nat) : NoiseKeyPair numbers.toCrypto :=
  ⟨List.replicate 32 n, List.replicate 32 n, rfl, rfl⟩

/-- A side of a first contact. -/
def contact (initiator : Bool) (n : Nat) : HandshakeOptions numbers.toCrypto where
  protocol := .NOISE_XX_PSK2
  initiator := initiator
  prologue := [2, 1]
  staticKeyPair := digitPair n
  psk := some (List.replicate 32 7)
  ephemeralKeyPair := none
  generated := digitPair (n + 1)

theorem new_contact (initiator : Bool) (n : Nat) :
    HandshakeState.new (contact initiator n) = .ok (contact initiator n).start := by
  refine new_eq_ok.mpr ⟨⟨rfl, ?_⟩, rfl⟩
  rintro _ ⟨⟩
  rfl

theorem handshake_agreement_contact :
    HandshakeState.new (contact true 3) = .ok (contact true 3).start ∧
      HandshakeState.new (contact false 5) = .ok (contact false 5).start ∧
      Fits .NOISE_XX_PSK2 (fun _ => [9]) ∧
      Agreed (contact true 3) (contact false 5) (fun _ => [9])
        (exchange (contact true 3).start (contact false 5).start (fun _ m => m) fun _ => [9]) := by
  have hFits : Fits .NOISE_XX_PSK2 (fun _ => [9]) := by
    refine ⟨?_, ?_, ?_⟩ <;> decide
  refine ⟨new_contact true 3, new_contact false 5, hFits, ?_⟩
  exact (handshake_agreement (new_contact true 3) (new_contact false 5) ⟨rfl, rfl⟩ rfl hFits).1
    rfl rfl

/-- A `split` before the last message fails, and the handshake goes on all the same. -/
theorem not_final_prematureSplit :
    HandshakeState.new (contact true 3) = .ok (contact true 3).start ∧
      ¬ ∀ (c : HandshakeCall Nat) (later : List (HandshakeCall Nat)),
        ((contact true 3).start.call c).1 = false →
          ∀ returned ∈ ((contact true 3).start.call c).2.calls later, returned = false := by
  refine ⟨new_contact true 3, fun hFinal => ?_⟩
  have hSplit : (contact true 3).start.call .split = (false, (contact true 3).start) := rfl
  obtain ⟨-, hWrite⟩ := first_written (p := []) (new_eq_ok.mp (new_contact true 3)).1 rfl
    (by decide)
  have hCall : ((contact true 3).start.call (.writeMessage [] [])).1 = true := by
    simp only [call, hWrite]
    rfl
  have hFalse := hFinal .split [.writeMessage [] []] (by rw [hSplit])
  rw [hSplit] at hFalse
  have hReturned := hFalse _ (List.mem_cons_self ..)
  rw [hCall] at hReturned
  cases hReturned

end Numbers

end Stim.Noise
