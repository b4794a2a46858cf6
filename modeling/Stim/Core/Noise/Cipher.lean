import Mathlib.Algebra.Group.Nat.Defs
import Stim.Lib.IdealAead

/-!
# Noise cipher states

`CipherState` of `packages/core/noise.ts`: a key and a counter that is the nonce of
the next message.  The cipher itself is ideal; `log` holds what was sealed so far.
-/

namespace Stim.Noise

open IdealAead

def KEY_BYTES : Nat := 32

def HASH_BYTES : Nat := 32

def TAG_BYTES : Nat := 16

/-- Nonce `2 ^ 64 - 1` is reserved. -/
def MAX_NONCE : Nat := 2 ^ 64 - 1

/-- `NoiseError`, `RangeError` and `TypeError`, with their messages. -/
inductive Failure where
  | noise (message : String)
  | range (message : String)
  | type (message : String)
  deriving DecidableEq, Repr

/-- A key, absent before the first `mixKey`, and the next nonce. -/
structure CipherState (B : Type) where
  k : Option (List B)
  n : Nat
  deriving DecidableEq

namespace CipherState

variable {B : Type}

/-- The cipher state of a new key. -/
def ofKey (key : List B) : CipherState B := ⟨some key, 0⟩

def hasKey (c : CipherState B) : Bool := c.k.isSome

/-- `encryptWithAd` with the cipher state and the log after it. -/
def encryptWithAd (A : Aead B TAG_BYTES) (log : Log B) (c : CipherState B)
    (ad plaintext : List B) : Except Failure (List B × CipherState B × Log B) :=
  match c.k with
  | none => .ok (plaintext, c, log)
  | some k =>
      if MAX_NONCE ≤ c.n then .error (.noise "Nonce exhausted")
      else
        let ciphertext := A.encrypt k c.n ad plaintext
        .ok (ciphertext, { c with n := c.n + 1 },
          log ++ [⟨k, c.n, ad, plaintext, ciphertext⟩])

/-- `decryptWithAd` with the cipher state after it. -/
def decryptWithAd [DecidableEq B] (log : Log B) (c : CipherState B) (ad ciphertext : List B) :
    Except Failure (List B × CipherState B) :=
  match c.k with
  | none => .ok (ciphertext, c)
  | some k =>
      if MAX_NONCE ≤ c.n then .error (.noise "Nonce exhausted")
      else if ciphertext.length < TAG_BYTES then
        .error (.noise "Message is shorter than its authentication tag")
      else match decrypt log k c.n ad ciphertext with
        | some plaintext => .ok (plaintext, { c with n := c.n + 1 })
        | none => .error (.noise "Message failed authentication")

end CipherState

end Stim.Noise
