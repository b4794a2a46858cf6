import Stim.Core.Noise.Transcript

/-!
# The three handshake messages

What each of the six calls of an exchange does when it succeeds: the bytes it writes
or takes apart, what it logs, and the state it leaves.
-/

namespace Stim.Noise

open IdealAead SymmetricState

variable {B : Type} {C : Crypto B}

theorem except_bind_eq_ok {ε α β : Type} {x : Except ε α} {f : α → Except ε β} {b : β} :
    (x >>= f) = .ok b ↔ ∃ a, x = .ok a ∧ f a = .ok b := by
  cases x with
  | error e => simp [bind, Except.bind]
  | ok a => simp [bind, Except.bind]

/-! ## States of an exchange -/

/-- The ephemeral key pair a handshake sends. -/
def HandshakeOptions.ephemeral (o : HandshakeOptions C) : NoiseKeyPair C :=
  o.ephemeralKeyPair.getD o.generated

/-- A handshake that knows the given keys. -/
def known (o : HandshakeOptions C) (e : Option (NoiseKeyPair C)) (re rs : Option (List B))
    (symmetric : SymmetricState B) (index : Nat) : HandshakeState C where
  symmetric := symmetric
  messages := PATTERNS o.protocol
  initiator := o.initiator
  s := o.staticKeyPair
  psk := o.psk
  generated := o.generated
  e := e
  re := re
  rs := rs
  index := index
  failed := false
  splitDone := false

/-- The symmetric state both sides start from. -/
def HandshakeOptions.initial (o : HandshakeOptions C) : SymmetricState B :=
  SymmetricState.mixHash C (.new C o.protocol) o.prologue

/-- A PSK of 32 bytes exactly for the protocol that takes one. -/
structure HandshakeOptions.Valid (o : HandshakeOptions C) : Prop where
  protocol : decide (o.protocol = .NOISE_XX_PSK2) = o.psk.isSome
  length : ∀ psk, o.psk = some psk → psk.length = KEY_BYTES

theorem new_eq_ok {o : HandshakeOptions C} {state : HandshakeState C} :
    HandshakeState.new o = .ok state ↔
      o.Valid ∧ state = known o o.ephemeralKeyPair none none o.initial 0 := by
  unfold HandshakeState.new
  split
  · rename_i hProtocol
    simp only [reduceCtorEq, false_iff, not_and]
    exact fun hValid => absurd hValid.protocol hProtocol
  · rename_i hProtocol
    split
    · rename_i hLength
      simp only [reduceCtorEq, false_iff, not_and]
      intro hValid
      obtain ⟨psk, hPsk, hNe⟩ := (Option.any_eq_true ..).mp hLength
      exact absurd (hValid.length psk hPsk) (of_decide_eq_true hNe)
    · rename_i hLength
      simp only [Except.ok.injEq]
      constructor
      · rintro rfl
        refine ⟨⟨not_not.mp hProtocol, fun psk hPsk => ?_⟩, rfl⟩
        rw [hPsk] at hLength
        simpa using hLength
      · rintro ⟨-, rfl⟩
        rfl

/-- `mixEphemeral` on the symmetric state. -/
def mixE (C : Crypto B) (psk : Option (List B)) (S : SymmetricState B) (publicKey : List B) :
    SymmetricState B :=
  if psk.isSome then (S.mixHash C publicKey).mixKey C publicKey else S.mixHash C publicKey

/-- The `psk` token on the symmetric state, for the protocol that has it. -/
def mixPsk (C : Crypto B) : Option (List B) → SymmetricState B → SymmetricState B
  | none, S => S
  | some psk, S => S.mixKeyAndHash C psk

/-! ## The calls around a message -/

namespace HandshakeState

/-- A call that succeeds. -/
theorem step_eq_ok {α : Type} {state after : HandshakeState C} {writing : Bool}
    {run : List Token → Except Failure (α × HandshakeState C)} {a : α} :
    state.step writing run = (.ok a, after) ↔
      state.failed = false ∧ ∃ tokens, state.messages[state.index]? = some tokens ∧
        writing = (state.initiator == (state.index % 2 == 0)) ∧
        ∃ done, run tokens = .ok (a, done) ∧ after = { done with index := state.index + 1 } := by
  unfold step
  cases hFailed : state.failed with
  | true => simp
  | false =>
      cases hTokens : state.messages[state.index]? with
      | none => simp
      | some tokens =>
          by_cases hTurn : writing = (state.initiator == (state.index % 2 == 0))
          · cases hRun : run tokens with
            | error e => simp [hTurn, hRun]
            | ok r =>
                obtain ⟨value, done⟩ := r
                simp only [Bool.false_eq_true, if_false, ne_eq, hTurn, not_true, hRun,
                  Prod.mk.injEq, Except.ok.injEq, true_and, Option.some.injEq, exists_eq_left']
                constructor
                · rintro ⟨rfl, rfl⟩
                  exact ⟨done, ⟨rfl, rfl⟩, rfl⟩
                · rintro ⟨_, ⟨rfl, rfl⟩, rfl⟩
                  exact ⟨rfl, rfl⟩
          · simp [hTurn]

variable {tokens : List Token}

/-- The end of `writeMessage`: the encrypted payload. -/
theorem write_eq_ok {log log' : Log B} {state after : HandshakeState C} {payload message : List B}
    (hNonce : ∀ parts mid log₁, state.writeTokens log tokens = .ok (parts, mid, log₁) →
      mid.symmetric.cipher.n < MAX_NONCE) :
    state.write log payload tokens = .ok ((message, log'), after) ↔
      ∃ parts mid log₁, state.writeTokens log tokens = .ok (parts, mid, log₁) ∧
        message = parts ++ mid.symmetric.ciphertext C payload ∧
        message.length ≤ MAX_HANDSHAKE_MESSAGE_BYTES ∧
        log' = log₁ ++ mid.symmetric.logged C payload ∧
        after = { mid with symmetric :=
          mid.symmetric.after C (mid.symmetric.ciphertext C payload) } := by
  unfold write
  rw [except_bind_eq_ok]
  constructor
  · rintro ⟨⟨parts, mid, log₁⟩, hTokens, hRest⟩
    dsimp only at hRest
    rw [encryptAndHash_eq _ (hNonce _ _ _ hTokens)] at hRest
    simp only [bind, Except.bind, pure, Except.pure] at hRest
    split at hRest
    · cases hRest
    · rename_i hSize
      cases hRest
      exact ⟨parts, mid, log₁, hTokens, rfl, Nat.not_lt.mp hSize, rfl, rfl⟩
  · rintro ⟨parts, mid, log₁, hTokens, rfl, hSize, rfl, rfl⟩
    refine ⟨(parts, mid, log₁), hTokens, ?_⟩
    dsimp only
    rw [encryptAndHash_eq _ (hNonce _ _ _ hTokens)]
    simp only [bind, Except.bind, pure, Except.pure, Nat.not_lt.mpr hSize, if_false]

theorem take_eq_ok {n : Nat} {unread part rest : List B} :
    take n unread = .ok (part, rest) ↔ part.length = n ∧ unread = part ++ rest := by
  unfold take
  split
  · rename_i hShort
    simp only [reduceCtorEq, false_iff, not_and]
    rintro hLength rfl
    simp only [List.length_append] at hShort
    omega
  · rename_i hLong
    simp only [Except.ok.injEq, Prod.mk.injEq]
    constructor
    · rintro ⟨rfl, rfl⟩
      exact ⟨by rw [List.length_take]; omega, (List.take_append_drop n unread).symm⟩
    · rintro ⟨rfl, rfl⟩
      exact ⟨List.take_left, List.drop_left⟩

/-! ## Tokens -/

variable {o : HandshakeOptions C} {e : Option (NoiseKeyPair C)} {E : NoiseKeyPair C}
  {re rs : Option (List B)} {remoteE remoteS : List B} {S : SymmetricState B} {n : Nat}
  {log : Log B}

theorem writeToken_e : (known o e re rs S n).writeToken log .e =
    .ok ((e.getD o.generated).publicKey,
      known o (some (e.getD o.generated)) re rs
        (mixE C o.psk S (e.getD o.generated).publicKey) n, log) := rfl

theorem writeToken_s (hNonce : S.cipher.n < MAX_NONCE) :
    (known o e re rs S n).writeToken log .s =
      .ok (S.ciphertext C o.staticKeyPair.publicKey,
        known o e re rs (S.after C (S.ciphertext C o.staticKeyPair.publicKey)) n,
        log ++ S.logged C o.staticKeyPair.publicKey) := by
  have hEncrypt : (known o e re rs S n).symmetric.encryptAndHash C log
      (known o e re rs S n).s.publicKey = _ :=
    encryptAndHash_eq (C := C) o.staticKeyPair.publicKey hNonce
  simp only [writeToken, hEncrypt]
  rfl

variable {after : HandshakeState C}

/-- A token that mixes a shared secret in. -/
theorem mixSecret_eq_ok {keyPair : NoiseKeyPair C} {publicKey : List B}
    {f : List B → HandshakeState C} :
    (do return f (← x25519 keyPair publicKey)) = .ok after ↔
      ∃ secret, C.dh keyPair.privateKey publicKey = some secret ∧ after = f secret := by
  unfold x25519
  cases C.dh keyPair.privateKey publicKey with
  | none => simp [bind, Except.bind]
  | some secret => simp [bind, Except.bind, pure, Except.pure, eq_comm]

theorem mixToken_ee :
    (known o (some E) (some remoteE) rs S n).mixToken .ee = .ok after ↔
      ∃ secret, C.dh E.privateKey remoteE = some secret ∧
        after = known o (some E) (some remoteE) rs (S.mixKey C secret) n :=
  mixSecret_eq_ok (f := fun secret => known o (some E) (some remoteE) rs (S.mixKey C secret) n)

variable {token : Token}

/-- The secret of the static key and the other side's ephemeral key, for either role. -/
theorem mixToken_static (hToken : token = if o.initiator then .se else .es) :
    (known o (some E) (some remoteE) rs S n).mixToken token = .ok after ↔
      ∃ secret, C.dh o.staticKeyPair.privateKey remoteE = some secret ∧
        after = known o (some E) (some remoteE) rs (S.mixKey C secret) n := by
  obtain ⟨protocol, initiator, prologue, staticKeyPair, psk, ephemeralKeyPair, generated⟩ := o
  cases initiator <;> cases hToken <;> exact mixSecret_eq_ok
    (f := fun secret => known _ (some E) (some remoteE) rs (S.mixKey C secret) n)

/-- The secret of the ephemeral key and the other side's static key, for either role. -/
theorem mixToken_ephemeral (hToken : token = if o.initiator then .es else .se) :
    (known o (some E) re (some remoteS) S n).mixToken token = .ok after ↔
      ∃ secret, C.dh E.privateKey remoteS = some secret ∧
        after = known o (some E) re (some remoteS) (S.mixKey C secret) n := by
  obtain ⟨protocol, initiator, prologue, staticKeyPair, psk, ephemeralKeyPair, generated⟩ := o
  cases initiator <;> cases hToken <;> exact mixSecret_eq_ok
    (f := fun secret => known _ (some E) re (some remoteS) (S.mixKey C secret) n)

theorem mixToken_psk {psk : List B} (hPsk : o.psk = some psk) :
    (known o e re rs S n).mixToken .psk = .ok (known o e re rs (mixPsk C o.psk S) n) := by
  obtain ⟨protocol, initiator, prologue, staticKeyPair, psk, ephemeralKeyPair, generated⟩ := o
  cases hPsk
  rfl

/-- The tokens after `es` of the second message. -/
def pskTokens (protocol : NoiseProtocolName) : List Token :=
  if protocol = .NOISE_XX_PSK2 then [.psk] else []

theorem patterns_first (protocol : NoiseProtocolName) :
    (PATTERNS protocol)[0]? = some [.e] := by cases protocol <;> rfl

theorem patterns_second (protocol : NoiseProtocolName) :
    (PATTERNS protocol)[1]? = some (.e :: .ee :: .s :: .es :: pskTokens protocol) := by
  cases protocol <;> rfl

theorem patterns_third (protocol : NoiseProtocolName) :
    (PATTERNS protocol)[2]? = some [.s, .se] := by cases protocol <;> rfl

theorem writeTokens_psk (hValid : o.Valid) :
    (known o e re rs S n).writeTokens log (pskTokens o.protocol) =
      .ok ([], known o e re rs (mixPsk C o.psk S) n, log) := by
  have hProtocol := hValid.protocol
  unfold pskTokens
  cases hPsk : o.psk with
  | none =>
      rw [hPsk] at hProtocol
      rw [if_neg (by simpa using hProtocol)]
      rfl
  | some psk =>
      rw [hPsk] at hProtocol
      rw [if_pos (by simpa using hProtocol)]
      have hMix : (known o e re rs S n).mixToken .psk =
          .ok (known o e re rs (mixPsk C o.psk S) n) := mixToken_psk hPsk
      rw [hPsk] at hMix
      simp only [writeTokens, writeToken, hMix, bind, Except.bind, pure, Except.pure,
        List.append_nil]

/-! ## Counters -/

theorem one_lt_max : 1 < MAX_NONCE := by decide

theorem mixE_n (psk : Option (List B)) (S : SymmetricState B) (x : List B) :
    (mixE C psk S x).cipher.n ≤ S.cipher.n := by
  unfold mixE
  split
  · exact Nat.zero_le _
  · exact Nat.le_refl _

theorem mixPsk_mixKey_n (psk : Option (List B)) (S : SymmetricState B) (x : List B) :
    (mixPsk C psk (S.mixKey C x)).cipher.n = 0 := by cases psk <;> rfl

theorem mixPsk_mixKey_hasKey (psk : Option (List B)) (S : SymmetricState B) (x : List B) :
    (mixPsk C psk (S.mixKey C x)).cipher.hasKey = true := by cases psk <;> rfl

/-! ## The tokens of the three messages -/

theorem writeTokens_first : (known o e re rs S n).writeTokens log [.e] =
    .ok ((e.getD o.generated).publicKey, known o (some (e.getD o.generated)) re rs
      (mixE C o.psk S (e.getD o.generated).publicKey) n, log) := by
  simp only [writeTokens, writeToken_e, bind, Except.bind, pure, Except.pure, List.append_nil]

variable {log' : Log B}

variable {parts : List B}

theorem writeTokens_cons {state after : HandshakeState C} {rest : List Token} :
    state.writeTokens log (token :: rest) = .ok (parts, after, log') ↔
      ∃ part mid log₁ more, state.writeToken log token = .ok (part, mid, log₁) ∧
        mid.writeTokens log₁ rest = .ok (more, after, log') ∧ parts = part ++ more := by
  simp only [writeTokens, except_bind_eq_ok]
  constructor
  · rintro ⟨⟨part, mid, log₁⟩, hToken, ⟨more, after', log₂⟩, hRest, hEq⟩
    cases hEq
    exact ⟨part, mid, log₁, more, hToken, hRest, rfl⟩
  · rintro ⟨part, mid, log₁, more, hToken, hRest, rfl⟩
    exact ⟨(part, mid, log₁), hToken, (more, after, log'), hRest, rfl⟩

/-- A token that adds nothing to the message. -/
theorem writeToken_mix {state after : HandshakeState C} {part : List B}
    (hToken : token ≠ .e ∧ token ≠ .s) :
    state.writeToken log token = .ok (part, after, log') ↔
      state.mixToken token = .ok after ∧ part = [] ∧ log' = log := by
  have hMix : state.writeToken log token = do return ([], ← state.mixToken token, log) := by
    cases token <;> first | rfl | simp at hToken
  rw [hMix, except_bind_eq_ok]
  constructor
  · rintro ⟨mid, hMid, hEq⟩
    cases hEq
    exact ⟨hMid, rfl, rfl⟩
  · rintro ⟨hMid, rfl, rfl⟩
    exact ⟨after, hMid, rfl⟩

theorem writeTokens_second {mid : HandshakeState C} {log₁ : Log B} (hValid : o.Valid)
    (hRole : o.initiator = false) :
    let E := e.getD o.generated
    (known o e (some remoteE) rs S n).writeTokens log
        (.e :: .ee :: .s :: .es :: pskTokens o.protocol) = .ok (parts, mid, log₁) ↔
      ∃ ee es, C.dh E.privateKey remoteE = some ee ∧
        C.dh o.staticKeyPair.privateKey remoteE = some es ∧
        let T := (mixE C o.psk S E.publicKey).mixKey C ee
        let part := T.ciphertext C o.staticKeyPair.publicKey
        parts = E.publicKey ++ part ∧
        mid = known o (some E) (some remoteE) rs
          (mixPsk C o.psk ((T.after C part).mixKey C es)) n ∧
        log₁ = log ++ T.logged C o.staticKeyPair.publicKey := by
  intro E
  have hNonce : ∀ ee, ((mixE C o.psk S E.publicKey).mixKey C ee).cipher.n < MAX_NONCE :=
    fun ee => Nat.lt_trans Nat.zero_lt_one one_lt_max
  have hES : Token.es = if o.initiator then .se else .es := by simp [hRole]
  constructor
  · intro h
    obtain ⟨p₁, s₁, l₁, m₁, h₁, h, rfl⟩ := writeTokens_cons.mp h
    cases writeToken_e.symm.trans h₁
    obtain ⟨p₂, s₂, l₂, m₂, h₂, h, rfl⟩ := writeTokens_cons.mp h
    obtain ⟨hMix, rfl, rfl⟩ := (writeToken_mix (by simp)).mp h₂
    obtain ⟨ee, hee, rfl⟩ := mixToken_ee.mp hMix
    obtain ⟨p₃, s₃, l₃, m₃, h₃, h, rfl⟩ := writeTokens_cons.mp h
    cases (writeToken_s (hNonce ee)).symm.trans h₃
    obtain ⟨p₄, s₄, l₄, m₄, h₄, h, rfl⟩ := writeTokens_cons.mp h
    obtain ⟨hMix, rfl, rfl⟩ := (writeToken_mix (by simp)).mp h₄
    obtain ⟨es, hes, rfl⟩ := (mixToken_static hES).mp hMix
    cases (writeTokens_psk hValid).symm.trans h
    exact ⟨ee, es, hee, hes, by simp [E], rfl, rfl⟩
  · rintro ⟨ee, es, hee, hes, rfl, rfl, rfl⟩
    refine writeTokens_cons.mpr ⟨_, _, _, _, writeToken_e, ?_, rfl⟩
    refine writeTokens_cons.mpr ⟨_, _, _, _, (writeToken_mix (by simp)).mpr
      ⟨mixToken_ee.mpr ⟨ee, hee, rfl⟩, rfl, rfl⟩, ?_, rfl⟩
    refine writeTokens_cons.mpr ⟨_, _, _, _, writeToken_s (hNonce ee), ?_,
      (List.append_nil _).symm⟩
    exact writeTokens_cons.mpr ⟨_, _, _, _, (writeToken_mix (by simp)).mpr
      ⟨(mixToken_static hES).mpr ⟨es, hes, rfl⟩, rfl, rfl⟩, writeTokens_psk hValid, rfl⟩

theorem writeTokens_third {mid : HandshakeState C} {log₁ : Log B} (hRole : o.initiator = true)
    (hNonce : S.cipher.n < MAX_NONCE) :
    (known o (some E) (some remoteE) rs S n).writeTokens log [.s, .se] =
        .ok (parts, mid, log₁) ↔
      ∃ se, C.dh o.staticKeyPair.privateKey remoteE = some se ∧
        let part := S.ciphertext C o.staticKeyPair.publicKey
        parts = part ∧
        mid = known o (some E) (some remoteE) rs ((S.after C part).mixKey C se) n ∧
        log₁ = log ++ S.logged C o.staticKeyPair.publicKey := by
  have hSE : Token.se = if o.initiator then .se else .es := by simp [hRole]
  constructor
  · intro h
    obtain ⟨p₁, s₁, l₁, m₁, h₁, h, rfl⟩ := writeTokens_cons.mp h
    cases (writeToken_s hNonce).symm.trans h₁
    obtain ⟨p₂, s₂, l₂, m₂, h₂, h, rfl⟩ := writeTokens_cons.mp h
    obtain ⟨hMix, rfl, rfl⟩ := (writeToken_mix (by simp)).mp h₂
    obtain ⟨se, hse, rfl⟩ := (mixToken_static hSE).mp hMix
    cases h
    exact ⟨se, hse, by simp, rfl, rfl⟩
  · rintro ⟨se, hse, rfl, rfl, rfl⟩
    refine writeTokens_cons.mpr ⟨_, _, _, _, writeToken_s hNonce, ?_, (List.append_nil _).symm⟩
    exact writeTokens_cons.mpr ⟨_, _, _, _, (writeToken_mix (by simp)).mpr
      ⟨(mixToken_static hSE).mpr ⟨se, hse, rfl⟩, rfl, rfl⟩, rfl, rfl⟩

/-! ## The calls of a known state -/

variable {p m : List B}

/-- A call of `writeMessage`. -/
theorem writeKnown {k : Nat} (hTurn : o.initiator = (k % 2 == 0))
    (hPattern : (PATTERNS o.protocol)[k]? = some tokens)
    (hNonce : ∀ parts mid log₁, (known o e re rs S k).writeTokens log tokens =
      .ok (parts, mid, log₁) → mid.symmetric.cipher.n < MAX_NONCE) :
    (known o e re rs S k).writeMessage log p = (.ok (m, log'), after) ↔
      ∃ parts mid log₁, (known o e re rs S k).writeTokens log tokens = .ok (parts, mid, log₁) ∧
        m = parts ++ mid.symmetric.ciphertext C p ∧ m.length ≤ MAX_HANDSHAKE_MESSAGE_BYTES ∧
        log' = log₁ ++ mid.symmetric.logged C p ∧
        after = { mid with
          symmetric := mid.symmetric.after C (mid.symmetric.ciphertext C p)
          index := k + 1 } := by
  unfold writeMessage
  rw [step_eq_ok]
  constructor
  · rintro ⟨-, tokens', hPattern', -, done, hWrite, rfl⟩
    obtain rfl : tokens = tokens' := Option.some.inj (hPattern.symm.trans hPattern')
    obtain ⟨parts, mid, log₁, hTokens, rfl, hSize, rfl, rfl⟩ := (write_eq_ok hNonce).mp hWrite
    exact ⟨parts, mid, log₁, hTokens, rfl, hSize, rfl, rfl⟩
  · rintro ⟨parts, mid, log₁, hTokens, rfl, hSize, rfl, rfl⟩
    refine ⟨rfl, tokens, hPattern, ?_, _, (write_eq_ok hNonce).mpr
      ⟨parts, mid, log₁, hTokens, rfl, hSize, rfl, rfl⟩, rfl⟩
    simp [known, hTurn]

/-- The initiator's first call. -/
theorem writeFirst (hRole : o.initiator = true) (hNonce : S.cipher.n = 0) :
    (known o e none none S 0).writeMessage log p = (.ok (m, log'), after) ↔
      let E := e.getD o.generated
      let T := mixE C o.psk S E.publicKey
      m = E.publicKey ++ T.ciphertext C p ∧ m.length ≤ MAX_HANDSHAKE_MESSAGE_BYTES ∧
        log' = log ++ T.logged C p ∧
        after = known o (some E) none none (T.after C (T.ciphertext C p)) 1 := by
  have hBound := mixE_n (C := C) o.psk S (e.getD o.generated).publicKey
  have hMax := one_lt_max
  rw [writeKnown (by simp [hRole]) (patterns_first o.protocol)]
  · constructor
    · rintro ⟨parts, mid, log₁, hTokens, rfl, hSize, rfl, rfl⟩
      cases writeTokens_first.symm.trans hTokens
      exact ⟨rfl, hSize, rfl, rfl⟩
    · rintro ⟨rfl, hSize, rfl, rfl⟩
      exact ⟨_, _, _, writeTokens_first, rfl, hSize, rfl, rfl⟩
  · intro parts mid log₁ hTokens
    cases writeTokens_first.symm.trans hTokens
    show (mixE C o.psk S (e.getD o.generated).publicKey).cipher.n < MAX_NONCE
    omega

/-- The responder's answer. -/
theorem writeSecond (hValid : o.Valid) (hRole : o.initiator = false) :
    let E := e.getD o.generated
    (known o e (some remoteE) none S 1).writeMessage log p = (.ok (m, log'), after) ↔
      ∃ ee es, C.dh E.privateKey remoteE = some ee ∧
        C.dh o.staticKeyPair.privateKey remoteE = some es ∧
        let T := (mixE C o.psk S E.publicKey).mixKey C ee
        let part := T.ciphertext C o.staticKeyPair.publicKey
        let U := mixPsk C o.psk ((T.after C part).mixKey C es)
        m = E.publicKey ++ part ++ U.ciphertext C p ∧ m.length ≤ MAX_HANDSHAKE_MESSAGE_BYTES ∧
        log' = log ++ T.logged C o.staticKeyPair.publicKey ++ U.logged C p ∧
        after = known o (some E) (some remoteE) none (U.after C (U.ciphertext C p)) 2 := by
  intro E
  rw [writeKnown (by simp [hRole]) (patterns_second o.protocol)]
  · constructor
    · rintro ⟨parts, mid, log₁, hTokens, rfl, hSize, rfl, rfl⟩
      obtain ⟨ee, es, hee, hes, rfl, rfl, rfl⟩ := (writeTokens_second hValid hRole).mp hTokens
      exact ⟨ee, es, hee, hes, rfl, hSize, rfl, rfl⟩
    · rintro ⟨ee, es, hee, hes, rfl, hSize, rfl, rfl⟩
      exact ⟨_, _, _, (writeTokens_second hValid hRole).mpr ⟨ee, es, hee, hes, rfl, rfl, rfl⟩,
        rfl, hSize, rfl, rfl⟩
  · intro parts mid log₁ hTokens
    obtain ⟨ee, es, hee, hes, rfl, rfl, rfl⟩ := (writeTokens_second hValid hRole).mp hTokens
    simp only [known, mixPsk_mixKey_n]
    exact Nat.lt_trans Nat.zero_lt_one one_lt_max

/-- The initiator's last call. -/
theorem writeThird (hRole : o.initiator = true) (hNonce : S.cipher.n < MAX_NONCE) :
    (known o (some E) (some remoteE) rs S 2).writeMessage log p = (.ok (m, log'), after) ↔
      ∃ se, C.dh o.staticKeyPair.privateKey remoteE = some se ∧
        let part := S.ciphertext C o.staticKeyPair.publicKey
        let U := (S.after C part).mixKey C se
        m = part ++ U.ciphertext C p ∧ m.length ≤ MAX_HANDSHAKE_MESSAGE_BYTES ∧
        log' = log ++ S.logged C o.staticKeyPair.publicKey ++ U.logged C p ∧
        after = known o (some E) (some remoteE) rs (U.after C (U.ciphertext C p)) 3 := by
  rw [writeKnown (by simp [hRole]) (patterns_third o.protocol)]
  · constructor
    · rintro ⟨parts, mid, log₁, hTokens, rfl, hSize, rfl, rfl⟩
      obtain ⟨se, hse, rfl, rfl, rfl⟩ := (writeTokens_third hRole hNonce).mp hTokens
      exact ⟨se, hse, rfl, hSize, rfl, rfl⟩
    · rintro ⟨se, hse, rfl, hSize, rfl, rfl⟩
      exact ⟨_, _, _, (writeTokens_third hRole hNonce).mpr ⟨se, hse, rfl, rfl, rfl⟩, rfl, hSize,
        rfl, rfl⟩
  · intro parts mid log₁ hTokens
    obtain ⟨se, hse, rfl, rfl, rfl⟩ := (writeTokens_third hRole hNonce).mp hTokens
    exact Nat.lt_trans Nat.zero_lt_one one_lt_max

variable [DecidableEq B]

/-- A call of `readMessage`. -/
theorem readKnown {k : Nat} (hTurn : o.initiator = !(k % 2 == 0))
    (hPattern : (PATTERNS o.protocol)[k]? = some tokens) :
    (known o e re rs S k).readMessage log m = (.ok p, after) ↔
      m.length ≤ MAX_HANDSHAKE_MESSAGE_BYTES ∧
        ∃ mid unread T, (known o e re rs S k).readTokens log m tokens = .ok (mid, unread) ∧
          mid.symmetric.decryptAndHash C log unread = .ok (p, T) ∧
          after = { mid with symmetric := T, index := k + 1 } := by
  have hRead : ∀ done, (known o e re rs S k).read log m tokens = .ok (p, done) ↔
      m.length ≤ MAX_HANDSHAKE_MESSAGE_BYTES ∧
        ∃ mid unread T, (known o e re rs S k).readTokens log m tokens = .ok (mid, unread) ∧
          mid.symmetric.decryptAndHash C log unread = .ok (p, T) ∧
          done = { mid with symmetric := T } := by
    intro done
    unfold read
    split
    · rename_i hLarge
      simp [Nat.not_le.mpr hLarge]
    · rename_i hSize
      rw [except_bind_eq_ok]
      simp only [Nat.not_lt.mp hSize, true_and]
      constructor
      · rintro ⟨⟨mid, unread⟩, hTokens, hRest⟩
        obtain ⟨⟨q, T⟩, hDecrypt, hDone⟩ := except_bind_eq_ok.mp hRest
        cases hDone
        exact ⟨mid, unread, T, hTokens, hDecrypt, rfl⟩
      · rintro ⟨mid, unread, T, hTokens, hDecrypt, rfl⟩
        exact ⟨(mid, unread), hTokens, except_bind_eq_ok.mpr ⟨(p, T), hDecrypt, rfl⟩⟩
  unfold readMessage
  rw [step_eq_ok]
  constructor
  · rintro ⟨-, tokens', hPattern', -, done, hDone, rfl⟩
    obtain rfl : tokens = tokens' := Option.some.inj (hPattern.symm.trans hPattern')
    obtain ⟨hSize, mid, unread, T, hTokens, hDecrypt, rfl⟩ := (hRead done).mp hDone
    exact ⟨hSize, mid, unread, T, hTokens, hDecrypt, rfl⟩
  · rintro ⟨hSize, mid, unread, T, hTokens, hDecrypt, rfl⟩
    refine ⟨rfl, tokens, hPattern, ?_, _,
      (hRead _).mpr ⟨hSize, mid, unread, T, hTokens, hDecrypt, rfl⟩, rfl⟩
    simp [known, hTurn]

/-! ## Reading the tokens -/

theorem readToken_e {m unread : List B} :
    (known o e re rs S n).readToken log m .e = .ok (after, unread) ↔
      ∃ remoteE, remoteE.length = KEY_BYTES ∧ m = remoteE ++ unread ∧
        after = known o e (some remoteE) rs (mixE C o.psk S remoteE) n := by
  simp only [readToken, except_bind_eq_ok]
  constructor
  · rintro ⟨⟨remoteE, rest⟩, hTake, hRest⟩
    cases hRest
    obtain ⟨hLength, rfl⟩ := take_eq_ok.mp hTake
    exact ⟨remoteE, hLength, rfl, rfl⟩
  · rintro ⟨remoteE, hLength, rfl, rfl⟩
    exact ⟨(remoteE, unread), take_eq_ok.mpr ⟨hLength, rfl⟩, rfl⟩

theorem readToken_s {m unread : List B} (hKey : S.cipher.hasKey = true) :
    (known o e re rs S n).readToken log m .s = .ok (after, unread) ↔
      ∃ part remoteS T, part.length = KEY_BYTES + TAG_BYTES ∧ m = part ++ unread ∧
        S.decryptAndHash C log part = .ok (remoteS, T) ∧
        after = known o e re (some remoteS) T n := by
  have hKey' : (known o e re rs S n).symmetric.cipher.hasKey = true := hKey
  simp only [readToken, hKey', if_true, except_bind_eq_ok]
  constructor
  · rintro ⟨⟨part, rest⟩, hTake, ⟨remoteS, T⟩, hDecrypt, hRest⟩
    cases hRest
    obtain ⟨hLength, rfl⟩ := take_eq_ok.mp hTake
    exact ⟨part, remoteS, T, hLength, rfl, hDecrypt, rfl⟩
  · rintro ⟨part, remoteS, T, hLength, rfl, hDecrypt, rfl⟩
    exact ⟨(part, unread), take_eq_ok.mpr ⟨hLength, rfl⟩, (remoteS, T), hDecrypt, rfl⟩

theorem readTokens_cons {state after : HandshakeState C} {rest : List Token} {m unread : List B} :
    state.readTokens log m (token :: rest) = .ok (after, unread) ↔
      ∃ mid left, state.readToken log m token = .ok (mid, left) ∧
        mid.readTokens log left rest = .ok (after, unread) := by
  simp only [readTokens, except_bind_eq_ok, Prod.exists]

/-- A token that takes nothing from the message. -/
theorem readToken_mix {state after : HandshakeState C} {m unread : List B}
    (hToken : token ≠ .e ∧ token ≠ .s) :
    state.readToken log m token = .ok (after, unread) ↔
      state.mixToken token = .ok after ∧ unread = m := by
  have hMix : state.readToken log m token = do return (← state.mixToken token, m) := by
    cases token <;> first | rfl | simp at hToken
  rw [hMix, except_bind_eq_ok]
  constructor
  · rintro ⟨mid, hMid, hEq⟩
    cases hEq
    exact ⟨hMid, rfl⟩
  · rintro ⟨hMid, rfl⟩
    exact ⟨after, hMid, rfl⟩

theorem readTokens_psk {m : List B} (hValid : o.Valid) :
    (known o e re rs S n).readTokens log m (pskTokens o.protocol) =
      .ok (known o e re rs (mixPsk C o.psk S) n, m) := by
  have hProtocol := hValid.protocol
  unfold pskTokens
  cases hPsk : o.psk with
  | none =>
      rw [hPsk] at hProtocol
      rw [if_neg (by simpa using hProtocol)]
      rfl
  | some psk =>
      rw [hPsk] at hProtocol
      rw [if_pos (by simpa using hProtocol)]
      have hMix : (known o e re rs S n).mixToken .psk =
          .ok (known o e re rs (mixPsk C o.psk S) n) := mixToken_psk hPsk
      rw [hPsk] at hMix
      exact readTokens_cons.mpr ⟨_, m, (readToken_mix (by simp)).mpr ⟨hMix, rfl⟩, rfl⟩

/-- The responder's first call. -/
theorem readFirst (hRole : o.initiator = false) :
    (known o e none none S 0).readMessage log m = (.ok p, after) ↔
      m.length ≤ MAX_HANDSHAKE_MESSAGE_BYTES ∧ ∃ remoteE c V, remoteE.length = KEY_BYTES ∧
        m = remoteE ++ c ∧
        (mixE C o.psk S remoteE).decryptAndHash C log c = .ok (p, V) ∧
        after = known o e (some remoteE) none V 1 := by
  rw [readKnown (by simp [hRole]) (patterns_first o.protocol)]
  refine and_congr_right fun _ => ⟨?_, ?_⟩
  · rintro ⟨mid, unread, V, hTokens, hDecrypt, rfl⟩
    obtain ⟨s₁, u₁, h₁, h⟩ := readTokens_cons.mp hTokens
    cases h
    obtain ⟨remoteE, hLength, rfl, rfl⟩ := readToken_e.mp h₁
    exact ⟨remoteE, unread, V, hLength, rfl, hDecrypt, rfl⟩
  · rintro ⟨remoteE, c, V, hLength, rfl, hDecrypt, rfl⟩
    exact ⟨_, c, V, readTokens_cons.mpr ⟨_, _, readToken_e.mpr ⟨remoteE, hLength, rfl, rfl⟩, rfl⟩,
      hDecrypt, rfl⟩

/-- The initiator reads the answer. -/
theorem readSecond (hValid : o.Valid) (hRole : o.initiator = true) :
    (known o (some E) none none S 1).readMessage log m = (.ok p, after) ↔
      m.length ≤ MAX_HANDSHAKE_MESSAGE_BYTES ∧ ∃ remoteE part c remoteS ee es W V,
        remoteE.length = KEY_BYTES ∧ part.length = KEY_BYTES + TAG_BYTES ∧
        m = remoteE ++ part ++ c ∧
        C.dh E.privateKey remoteE = some ee ∧ C.dh E.privateKey remoteS = some es ∧
        ((mixE C o.psk S remoteE).mixKey C ee).decryptAndHash C log part = .ok (remoteS, W) ∧
        (mixPsk C o.psk (W.mixKey C es)).decryptAndHash C log c = .ok (p, V) ∧
        after = known o (some E) (some remoteE) (some remoteS) V 2 := by
  have hES : Token.es = if o.initiator then .es else .se := by simp [hRole]
  rw [readKnown (by simp [hRole]) (patterns_second o.protocol)]
  refine and_congr_right fun _ => ⟨?_, ?_⟩
  · rintro ⟨mid, unread, V, hTokens, hDecrypt, rfl⟩
    obtain ⟨s₁, u₁, h₁, h⟩ := readTokens_cons.mp hTokens
    obtain ⟨remoteE, hLength, rfl, rfl⟩ := readToken_e.mp h₁
    obtain ⟨s₂, u₂, h₂, h⟩ := readTokens_cons.mp h
    obtain ⟨hMix, rfl⟩ := (readToken_mix (by simp)).mp h₂
    obtain ⟨ee, hee, rfl⟩ := mixToken_ee.mp hMix
    obtain ⟨s₃, u₃, h₃, h⟩ := readTokens_cons.mp h
    obtain ⟨part, remoteS, W, hPart, rfl, hStatic, rfl⟩ := (readToken_s rfl).mp h₃
    obtain ⟨s₄, u₄, h₄, h⟩ := readTokens_cons.mp h
    obtain ⟨hMix, rfl⟩ := (readToken_mix (by simp)).mp h₄
    obtain ⟨es, hes, rfl⟩ := (mixToken_ephemeral hES).mp hMix
    cases (readTokens_psk hValid).symm.trans h
    exact ⟨remoteE, part, unread, remoteS, ee, es, W, V, hLength, hPart, by simp, hee, hes, hStatic,
      hDecrypt, rfl⟩
  · rintro ⟨remoteE, part, c, remoteS, ee, es, W, V, hLength, hPart, rfl, hee, hes, hStatic,
      hDecrypt, rfl⟩
    refine ⟨known o (some E) (some remoteE) (some remoteS) (mixPsk C o.psk (W.mixKey C es)) 1,
      c, V, ?_, hDecrypt, rfl⟩
    refine readTokens_cons.mpr ⟨_, _, readToken_e.mpr
      ⟨remoteE, hLength, List.append_assoc _ _ _, rfl⟩, ?_⟩
    refine readTokens_cons.mpr ⟨_, _, (readToken_mix (by simp)).mpr
      ⟨mixToken_ee.mpr ⟨ee, hee, rfl⟩, rfl⟩, ?_⟩
    refine readTokens_cons.mpr ⟨_, _, (readToken_s rfl).mpr
      ⟨part, remoteS, W, hPart, rfl, hStatic, rfl⟩, ?_⟩
    exact readTokens_cons.mpr ⟨_, _, (readToken_mix (by simp)).mpr
      ⟨(mixToken_ephemeral hES).mpr ⟨es, hes, rfl⟩, rfl⟩, readTokens_psk hValid⟩

/-- The responder's last call. -/
theorem readThird (hRole : o.initiator = false) (hKey : S.cipher.hasKey = true) :
    (known o (some E) re none S 2).readMessage log m = (.ok p, after) ↔
      m.length ≤ MAX_HANDSHAKE_MESSAGE_BYTES ∧ ∃ part c remoteS se W V,
        part.length = KEY_BYTES + TAG_BYTES ∧ m = part ++ c ∧
        S.decryptAndHash C log part = .ok (remoteS, W) ∧
        C.dh E.privateKey remoteS = some se ∧
        (W.mixKey C se).decryptAndHash C log c = .ok (p, V) ∧
        after = known o (some E) re (some remoteS) V 3 := by
  have hSE : Token.se = if o.initiator then .es else .se := by simp [hRole]
  rw [readKnown (by simp [hRole]) (patterns_third o.protocol)]
  refine and_congr_right fun _ => ⟨?_, ?_⟩
  · rintro ⟨mid, unread, V, hTokens, hDecrypt, rfl⟩
    obtain ⟨s₁, u₁, h₁, h⟩ := readTokens_cons.mp hTokens
    obtain ⟨part, remoteS, W, hPart, rfl, hStatic, rfl⟩ := (readToken_s hKey).mp h₁
    obtain ⟨s₂, u₂, h₂, h⟩ := readTokens_cons.mp h
    obtain ⟨hMix, rfl⟩ := (readToken_mix (by simp)).mp h₂
    obtain ⟨se, hse, rfl⟩ := (mixToken_ephemeral hSE).mp hMix
    cases h
    exact ⟨part, unread, remoteS, se, W, V, hPart, rfl, hStatic, hse, hDecrypt, rfl⟩
  · rintro ⟨part, c, remoteS, se, W, V, hPart, rfl, hStatic, hse, hDecrypt, rfl⟩
    refine ⟨known o (some E) re (some remoteS) (W.mixKey C se) 2, c, V, ?_, hDecrypt, rfl⟩
    refine readTokens_cons.mpr ⟨_, _, (readToken_s hKey).mpr
      ⟨part, remoteS, W, hPart, rfl, hStatic, rfl⟩, ?_⟩
    exact readTokens_cons.mpr ⟨_, _, (readToken_mix (by simp)).mpr
      ⟨(mixToken_ephemeral hSE).mpr ⟨se, hse, rfl⟩, rfl⟩, rfl⟩

end HandshakeState

end Stim.Noise
