import Mathlib.Data.List.Basic

/-!
# Ideal authenticated encryption

Encrypting is a function; decrypting is authentic by definition: it answers the plaintext
of a ciphertext that was made under the same key, nonce and associated data, and
refuses everything else.  The log holds every use of the encrypting function so far.
-/

namespace IdealAead

/-- One use of the encrypting function. -/
structure Sealed (B : Type) where
  key : List B
  nonce : Nat
  ad : List B
  plaintext : List B
  ciphertext : List B

/-- Everything sealed so far, oldest first. -/
abbrev Log (B : Type) := List (Sealed B)

/-- An encrypting function whose ciphertexts are `tag` bytes longer than their plaintexts. -/
structure Aead (B : Type) (tag : Nat) where
  encrypt : List B → Nat → List B → List B → List B
  length_encrypt : ∀ key nonce ad plaintext,
    (encrypt key nonce ad plaintext).length = plaintext.length + tag

variable {B : Type} [DecidableEq B]

/-- The plaintext of a logged ciphertext. -/
def decrypt (log : Log B) (key : List B) (nonce : Nat) (ad ciphertext : List B) :
    Option (List B) :=
  (log.find? fun e => e.key = key ∧ e.nonce = nonce ∧ e.ad = ad ∧
    e.ciphertext = ciphertext).map Sealed.plaintext

variable {log : Log B} {key ad ciphertext plaintext : List B} {nonce : Nat}

/-- What decrypts was sealed. -/
theorem mem_of_decrypt (h : decrypt log key nonce ad ciphertext = some plaintext) :
    (⟨key, nonce, ad, plaintext, ciphertext⟩ : Sealed B) ∈ log := by
  obtain ⟨e, hFind, rfl⟩ := Option.map_eq_some_iff.mp h
  have hMatches := List.find?_some hFind
  have hMem := List.mem_of_find?_eq_some hFind
  obtain ⟨rfl, rfl, rfl, rfl⟩ := of_decide_eq_true hMatches
  exact hMem

/-- What was sealed decrypts, when no other plaintext was sealed to the same ciphertext. -/
theorem decrypt_of_mem (hMem : (⟨key, nonce, ad, plaintext, ciphertext⟩ : Sealed B) ∈ log)
    (hSole : ∀ p, (⟨key, nonce, ad, p, ciphertext⟩ : Sealed B) ∈ log → p = plaintext) :
    decrypt log key nonce ad ciphertext = some plaintext := by
  cases hOpen : decrypt log key nonce ad ciphertext with
  | some p => rw [hSole p (mem_of_decrypt hOpen)]
  | none =>
      rw [decrypt, Option.map_eq_none_iff, List.find?_eq_none] at hOpen
      exact absurd (decide_eq_true ⟨rfl, rfl, rfl, rfl⟩) (hOpen _ hMem)

end IdealAead
