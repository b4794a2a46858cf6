import Stim.Core.Noise.Handshake

/-!
# Handshake transcripts

The handshake hash is a chain of hashes over what was mixed into it.  With ideal
hashes the chain determines the whole list (`chain_injective`), so the associated
data of an encrypted part stands for the transcript before it: a part opens only for
a reader whose transcript is the writer's.
-/

namespace Stim.Noise

open IdealAead

variable {B : Type}

/-! ## Chains of hashes -/

/-- The hash of a transcript. -/
def chain (C : Crypto B) (h : List B) (transcript : List (List B)) : List B :=
  transcript.foldl (fun h data => C.sha256 (h ++ data)) h

theorem chain_concat (C : Crypto B) (h : List B) (transcript : List (List B)) (data : List B) :
    chain C h (transcript ++ [data]) = C.sha256 (chain C h transcript ++ data) := by
  simp [chain]

section Chains

variable (C : IdealCrypto B) {h : List B}

theorem length_chain (hLength : h.length = HASH_BYTES) (transcript : List (List B)) :
    (chain C.toCrypto h transcript).length = HASH_BYTES := by
  cases transcript using List.reverseRecOn with
  | nil => exact hLength
  | append_singleton transcript data =>
      rw [chain_concat]
      exact C.length_sha256 _

theorem rank_chain (hLength : h.length = HASH_BYTES) (transcript : List (List B)) :
    C.rank h ≤ C.rank (chain C.toCrypto h transcript) := by
  induction transcript using List.reverseRecOn with
  | nil => exact Nat.le_refl _
  | append_singleton transcript data ih =>
      rw [chain_concat]
      have := C.rank_lt _ data (length_chain C hLength transcript)
      omega

/-- A chain does not return to its start. -/
theorem chain_concat_ne (hLength : h.length = HASH_BYTES) (transcript : List (List B))
    (data : List B) : chain C.toCrypto h (transcript ++ [data]) ≠ h := by
  intro hEq
  have hRank := rank_chain C hLength transcript
  have hLt := C.rank_lt _ data (length_chain C hLength transcript)
  rw [← chain_concat, hEq] at hLt
  omega

/-- The hash determines the transcript. -/
theorem chain_injective (hLength : h.length = HASH_BYTES) {T T' : List (List B)}
    (hEq : chain C.toCrypto h T = chain C.toCrypto h T') : T = T' := by
  induction T using List.reverseRecOn generalizing T' with
  | nil =>
      cases T' using List.reverseRecOn with
      | nil => rfl
      | append_singleton T' data' => exact absurd hEq.symm (chain_concat_ne C hLength T' data')
  | append_singleton T data ih =>
      cases T' using List.reverseRecOn with
      | nil => exact absurd hEq (chain_concat_ne C hLength T data)
      | append_singleton T' data' =>
          rw [chain_concat, chain_concat] at hEq
          have hLengths : (chain C.toCrypto h T).length = (chain C.toCrypto h T').length := by
            rw [length_chain C hLength, length_chain C hLength]
          obtain ⟨hChain, rfl⟩ :=
            (List.append_inj (C.sha256_injective hEq) hLengths)
          rw [ih hChain]

end Chains

/-! ## What the symmetric state does with a part -/

namespace SymmetricState

variable (C : Crypto B)

/-- What `encryptAndHash` answers. -/
def ciphertext (S : SymmetricState B) (plaintext : List B) : List B :=
  match S.cipher.k with
  | none => plaintext
  | some k => C.aead.encrypt k S.cipher.n S.h plaintext

/-- What `encryptAndHash` logs. -/
def logged (S : SymmetricState B) (plaintext : List B) : Log B :=
  match S.cipher.k with
  | none => []
  | some k => [⟨k, S.cipher.n, S.h, plaintext, C.aead.encrypt k S.cipher.n S.h plaintext⟩]

/-- The state after a part was encrypted or decrypted. -/
def after (S : SymmetricState B) (part : List B) : SymmetricState B :=
  mixHash C { S with cipher := { S.cipher with
    n := if S.cipher.hasKey then S.cipher.n + 1 else S.cipher.n } } part

variable {C} {S : SymmetricState B} {log : Log B}

theorem encryptAndHash_eq (plaintext : List B) (hNonce : S.cipher.n < MAX_NONCE) :
    S.encryptAndHash C log plaintext = .ok (S.ciphertext C plaintext,
      S.after C (S.ciphertext C plaintext), log ++ S.logged C plaintext) := by
  obtain ⟨ck, h, k, n⟩ := S
  cases k with
  | none => simp [encryptAndHash, CipherState.encryptWithAd, ciphertext, after, logged,
      CipherState.hasKey, bind, Except.bind, pure, Except.pure]
  | some k =>
      have hNot : ¬ MAX_NONCE ≤ n := Nat.not_le.mpr hNonce
      simp [encryptAndHash, CipherState.encryptWithAd, ciphertext, after, logged,
        CipherState.hasKey, bind, Except.bind, pure, Except.pure, hNot]

/-- A log in which every entry is a use of the cipher. -/
def Faithful (C : Crypto B) (log : Log B) : Prop :=
  ∀ e ∈ log, e.ciphertext = C.aead.encrypt e.key e.nonce e.ad e.plaintext

theorem faithful_logged (hLog : Faithful C log) (plaintext : List B) :
    Faithful C (log ++ S.logged C plaintext) := by
  intro e he
  rcases List.mem_append.mp he with he | he
  · exact hLog e he
  · unfold logged at he
    split at he
    · cases he
    · rw [List.mem_singleton.mp he]

theorem length_ciphertext (plaintext : List B) : (S.ciphertext C plaintext).length =
    plaintext.length + if S.cipher.hasKey then TAG_BYTES else 0 := by
  unfold ciphertext CipherState.hasKey
  split
  · rename_i hk
    simp [hk]
  · rename_i k hk
    simp [hk, C.aead.length_encrypt]

variable [DecidableEq B]

theorem decryptAndHash_eq_ok {part plaintext : List B} {S' : SymmetricState B} :
    S.decryptAndHash C log part = .ok (plaintext, S') ↔
      S' = S.after C part ∧ match S.cipher.k with
        | none => plaintext = part
        | some k => S.cipher.n < MAX_NONCE ∧ TAG_BYTES ≤ part.length ∧
            decrypt log k S.cipher.n S.h part = some plaintext := by
  obtain ⟨ck, h, k, n⟩ := S
  cases k with
  | none =>
      simp only [decryptAndHash, CipherState.decryptWithAd, after, CipherState.hasKey, bind,
        Except.bind, pure, Except.pure, Except.ok.injEq, Prod.mk.injEq, Option.isSome_none,
        Bool.false_eq_true, if_false]
      constructor
      · rintro ⟨rfl, rfl⟩
        exact ⟨rfl, rfl⟩
      · rintro ⟨rfl, rfl⟩
        exact ⟨rfl, rfl⟩
  | some k =>
      simp only [decryptAndHash, CipherState.decryptWithAd, after, CipherState.hasKey, bind,
        Except.bind, pure, Except.pure, Option.isSome_some, if_true]
      by_cases hNonce : MAX_NONCE ≤ n
      · simp [hNonce, Nat.not_lt.mpr hNonce]
      · by_cases hTag : part.length < TAG_BYTES
        · simp [hNonce, hTag, Nat.not_le.mpr hTag]
        · cases hOpen : decrypt log k n h part with
          | none => simp [hNonce, hTag]
          | some opened =>
              simp only [hNonce, hTag, if_false, Except.ok.injEq, Prod.mk.injEq,
                Option.some.injEq]
              constructor
              · rintro ⟨rfl, rfl⟩
                exact ⟨rfl, by omega, by omega, rfl⟩
              · rintro ⟨rfl, -, -, rfl⟩
                exact ⟨rfl, rfl⟩

end SymmetricState

open SymmetricState

variable [DecidableEq B] {C : IdealCrypto B} {S : SymmetricState B} {log : Log B}

/-- A part that was encrypted in the reader's own state decrypts. -/
theorem decryptAndHash_of_logged {plaintext : List B} (hLog : Faithful C.toCrypto log)
    (hLogged : ∀ e ∈ S.logged C.toCrypto plaintext, e ∈ log) (hNonce : S.cipher.n < MAX_NONCE) :
    S.decryptAndHash C.toCrypto log (S.ciphertext C.toCrypto plaintext) =
      .ok (plaintext, S.after C.toCrypto (S.ciphertext C.toCrypto plaintext)) := by
  rw [decryptAndHash_eq_ok]
  refine ⟨rfl, ?_⟩
  unfold ciphertext
  split
  · rfl
  · rename_i k hk
    simp only
    refine ⟨hNonce, by rw [C.aead.length_encrypt]; omega, ?_⟩
    refine decrypt_of_mem (hLogged _ (by simp [logged, hk])) ?_
    intro p hp
    exact (C.encrypt_injective (hLog _ hp)).symm

/-- A part that decrypts under a key was encrypted by someone with the same transcript. -/
theorem mem_of_decryptAndHash {part plaintext : List B} {S' : SymmetricState B}
    (h : S.decryptAndHash C.toCrypto log part = .ok (plaintext, S'))
    (hKey : S.cipher.hasKey = true) :
    ∃ e ∈ log, e.ad = S.h ∧ e.ciphertext = part ∧ e.plaintext = plaintext := by
  obtain ⟨k, hk⟩ := Option.isSome_iff_exists.mp hKey
  rw [decryptAndHash_eq_ok, hk] at h
  exact ⟨_, mem_of_decrypt h.2.2.2, rfl, rfl, rfl⟩

end Stim.Noise
