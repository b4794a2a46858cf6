import Stim.Core.Noise.Cipher
import Mathlib.Data.List.Induction

/-!
# The Noise handshake

`SymmetricState` and `HandshakeState` of `packages/core/noise.ts`, over the
primitives of `node:crypto`.  What makes those ideal is `IdealCrypto`: X25519 is a
commutative key agreement, the hashes are injective and never run in a circle, and
opening is authentic (`IdealAead`).  An injective hash with outputs of 32 bytes needs
more than 256 bytes to choose from, so the alphabet is a parameter; `byte` embeds the
constants of the source.
-/

namespace Stim.Noise

open IdealAead

/-- The primitives of `node:crypto` the handshake uses.  `dh` is `none` where X25519
throws. -/
structure Crypto (B : Type) where
  byte : UInt8 → B
  publicKey : List B → List B
  dh : List B → List B → Option (List B)
  sha256 : List B → List B
  hmac : List B → List B → List B
  aead : Aead B TAG_BYTES

/-- Ideal primitives. -/
structure IdealCrypto (B : Type) extends Crypto B where
  length_publicKey : ∀ a, a.length = KEY_BYTES → (publicKey a).length = KEY_BYTES
  /-- X25519 of two key pairs is defined and commutative. -/
  dh_comm : ∀ a b, a.length = KEY_BYTES → b.length = KEY_BYTES →
    dh a (publicKey b) = dh b (publicKey a)
  dh_defined : ∀ a b, a.length = KEY_BYTES → b.length = KEY_BYTES →
    dh a (publicKey b) ≠ none
  length_sha256 : ∀ x, (sha256 x).length = HASH_BYTES
  length_hmac : ∀ k x, (hmac k x).length = HASH_BYTES
  sha256_injective : Function.Injective sha256
  hmac_injective : ∀ {k k' x x'}, k.length = KEY_BYTES → k'.length = KEY_BYTES →
    hmac k x = hmac k' x' → k = k' ∧ x = x'
  /-- No chain of hashes comes back to where it began. -/
  rank : List B → Nat
  rank_lt : ∀ h x, h.length = HASH_BYTES → rank h < rank (sha256 (h ++ x))
  encrypt_injective : ∀ {key nonce ad x x'},
    aead.encrypt key nonce ad x = aead.encrypt key nonce ad x' → x = x'

/-- A raw X25519 key pair. -/
structure NoiseKeyPair {B : Type} (C : Crypto B) where
  privateKey : List B
  publicKey : List B
  length : privateKey.length = KEY_BYTES
  derived : publicKey = C.publicKey privateKey

inductive NoiseProtocolName where
  | NOISE_XX
  | NOISE_XX_PSK2
  deriving DecidableEq, Repr

def NoiseProtocolName.name : NoiseProtocolName → String
  | .NOISE_XX => "Noise_XX_25519_ChaChaPoly_SHA256"
  | .NOISE_XX_PSK2 => "Noise_XXpsk2_25519_ChaChaPoly_SHA256"

/-- Largest handshake message either side writes or reads. -/
def MAX_HANDSHAKE_MESSAGE_BYTES : Nat := 1024

variable {B : Type}

/-- The bytes of an ASCII string. -/
def Crypto.ascii (C : Crypto B) (s : String) : List B :=
  s.toUTF8.data.toList.map C.byte

/-- Noise's HKDF. -/
def hkdf (C : Crypto B) (chainingKey input : List B) : List B × List B × List B :=
  let temp := C.hmac chainingKey input
  let first := C.hmac temp [C.byte 1]
  let second := C.hmac temp (first ++ [C.byte 2])
  (first, second, C.hmac temp (second ++ [C.byte 3]))

/-! ## The symmetric state -/

structure SymmetricState (B : Type) where
  ck : List B
  h : List B
  cipher : CipherState B

namespace SymmetricState

variable (C : Crypto B)

/-- The hash a handshake starts from: the protocol's name, padded or hashed. -/
def initialHash (protocol : NoiseProtocolName) : List B :=
  let name := C.ascii protocol.name
  if name.length ≤ HASH_BYTES then
    name ++ List.replicate (HASH_BYTES - name.length) (C.byte 0)
  else C.sha256 name

def new (protocol : NoiseProtocolName) : SymmetricState B :=
  ⟨initialHash C protocol, initialHash C protocol, ⟨none, 0⟩⟩

def mixHash (S : SymmetricState B) (data : List B) : SymmetricState B :=
  { S with h := C.sha256 (S.h ++ data) }

def mixKey (S : SymmetricState B) (input : List B) : SymmetricState B :=
  let (ck, k, _) := hkdf C S.ck input
  { S with ck, cipher := .ofKey k }

def mixKeyAndHash (S : SymmetricState B) (input : List B) : SymmetricState B :=
  let (ck, h, k) := hkdf C S.ck input
  { mixHash C { S with ck } h with cipher := .ofKey k }

def encryptAndHash (log : Log B) (S : SymmetricState B) (plaintext : List B) :
    Except Failure (List B × SymmetricState B × Log B) := do
  let (ciphertext, cipher, log) ← S.cipher.encryptWithAd C.aead log S.h plaintext
  return (ciphertext, mixHash C { S with cipher } ciphertext, log)

def decryptAndHash [DecidableEq B] (log : Log B) (S : SymmetricState B)
    (ciphertext : List B) : Except Failure (List B × SymmetricState B) := do
  let (plaintext, cipher) ← S.cipher.decryptWithAd log S.h ciphertext
  return (plaintext, mixHash C { S with cipher } ciphertext)

def split (S : SymmetricState B) : CipherState B × CipherState B :=
  let (first, second, _) := hkdf C S.ck []
  (.ofKey first, .ofKey second)

end SymmetricState

/-! ## The handshake state -/

inductive Token where
  | e | s | ee | es | se | psk
  deriving DecidableEq, Repr

def PATTERNS : NoiseProtocolName → List (List Token)
  | .NOISE_XX => [[.e], [.e, .ee, .s, .es], [.s, .se]]
  | .NOISE_XX_PSK2 => [[.e], [.e, .ee, .s, .es, .psk], [.s, .se]]

structure HandshakeOptions (C : Crypto B) where
  protocol : NoiseProtocolName
  initiator : Bool
  prologue : List B
  staticKeyPair : NoiseKeyPair C
  psk : Option (List B)
  ephemeralKeyPair : Option (NoiseKeyPair C)
  /-- What `generateNoiseKeyPair` answers when the handshake calls it. -/
  generated : NoiseKeyPair C

structure HandshakeState (C : Crypto B) where
  symmetric : SymmetricState B
  messages : List (List Token)
  initiator : Bool
  s : NoiseKeyPair C
  psk : Option (List B)
  generated : NoiseKeyPair C
  e : Option (NoiseKeyPair C)
  re : Option (List B)
  rs : Option (List B)
  index : Nat
  failed : Bool
  splitDone : Bool

namespace HandshakeState

variable {C : Crypto B}

/-- The constructor. -/
def new (options : HandshakeOptions C) : Except Failure (HandshakeState C) :=
  if decide (options.protocol = .NOISE_XX_PSK2) ≠ options.psk.isSome then
    .error (.type (options.protocol.name ++ " psk mismatch"))
  else if options.psk.any (fun psk => psk.length ≠ KEY_BYTES) then
    .error (.range "A PSK is 32 bytes")
  else .ok
    { symmetric := SymmetricState.mixHash C (.new C options.protocol) options.prologue
      messages := PATTERNS options.protocol
      initiator := options.initiator
      s := options.staticKeyPair
      psk := options.psk
      generated := options.generated
      e := options.ephemeralKeyPair
      re := none
      rs := none
      index := 0
      failed := false
      splitDone := false }

def isComplete (state : HandshakeState C) : Bool := state.index == state.messages.length

def remoteStaticPublicKey (state : HandshakeState C) : Option (List B) :=
  if state.failed then none else state.rs

def handshakeHash (state : HandshakeState C) : Except Failure (List B) :=
  if state.isComplete then .ok state.symmetric.h
  else .error (.noise "The handshake is not complete")

/-- `#mixEphemeral`: in a PSK handshake every ephemeral key is also mixed into the key. -/
def mixEphemeral (state : HandshakeState C) (publicKey : List B) : HandshakeState C :=
  let mixed := state.symmetric.mixHash C publicKey
  { state with symmetric := if state.psk.isSome then mixed.mixKey C publicKey else mixed }

/-- `#x25519`. -/
def x25519 (keyPair : NoiseKeyPair C) (publicKey : List B) : Except Failure (List B) :=
  match C.dh keyPair.privateKey publicKey with
  | some secret => .ok secret
  | none => .error (.noise "X25519 failed; the peer sent an invalid public key")

def tokenName : Token → String
  | .e => "e"
  | .s => "s"
  | .ee => "ee"
  | .es => "es"
  | .se => "se"
  | .psk => "psk"

/-- `remote` of `#mixToken`. -/
def remote (token : Token) : Option (List B) → Except Failure (List B)
  | some key => .ok key
  | none => .error (.noise ("Token " ++ tokenName token ++ " needs a remote key"))

/-- `#mixToken`. -/
def mixToken (state : HandshakeState C) (token : Token) :
    Except Failure (HandshakeState C) :=
  match token, state.psk, state.e with
  | .psk, none, _ => .error (.noise "Pattern needs a PSK")
  | .psk, some psk, _ =>
      .ok { state with symmetric := state.symmetric.mixKeyAndHash C psk }
  | token, _, none => .error (.noise ("Token " ++ tokenName token ++ " needs an ephemeral key"))
  | token, _, some e => do
      let secret ← match token, state.initiator with
        | .ee, _ => x25519 e (← remote token state.re)
        | .es, true => x25519 e (← remote token state.rs)
        | .es, false => x25519 state.s (← remote token state.re)
        | _, true => x25519 state.s (← remote token state.re)
        | _, false => x25519 e (← remote token state.rs)
      return { state with symmetric := state.symmetric.mixKey C secret }

/-- One token of `writeMessage`: what it adds to the message. -/
def writeToken (log : Log B) (state : HandshakeState C) :
    Token → Except Failure (List B × HandshakeState C × Log B)
  | .e =>
      let e := state.e.getD state.generated
      .ok (e.publicKey, { state with e := some e }.mixEphemeral e.publicKey, log)
  | .s => do
      let (part, symmetric, log) ←
        state.symmetric.encryptAndHash C log state.s.publicKey
      return (part, { state with symmetric }, log)
  | token => do return ([], ← state.mixToken token, log)

/-- The loop of `writeMessage`. -/
def writeTokens (log : Log B) (state : HandshakeState C) :
    List Token → Except Failure (List B × HandshakeState C × Log B)
  | [] => .ok ([], state, log)
  | token :: rest => do
      let (part, state, log) ← writeToken log state token
      let (parts, state, log) ← writeTokens log state rest
      return (part ++ parts, state, log)

/-- `take`: the first bytes of what is unread, and the rest. -/
def take (length : Nat) (unread : List B) : Except Failure (List B × List B) :=
  if unread.length < length then .error (.noise "Handshake message is truncated")
  else .ok (unread.take length, unread.drop length)

section Reading

variable [DecidableEq B]

/-- One token of `readMessage`: the state and what is unread after it. -/
def readToken (log : Log B) (state : HandshakeState C) (unread : List B) :
    Token → Except Failure (HandshakeState C × List B)
  | .e => do
      let (re, unread) ← take KEY_BYTES unread
      return ({ state with re := some re }.mixEphemeral re, unread)
  | .s => do
      let length := KEY_BYTES + if state.symmetric.cipher.hasKey then TAG_BYTES else 0
      let (part, unread) ← take length unread
      let (rs, symmetric) ← state.symmetric.decryptAndHash C log part
      return ({ state with rs := some rs, symmetric }, unread)
  | token => do return (← state.mixToken token, unread)

/-- The loop of `readMessage`. -/
def readTokens (log : Log B) (state : HandshakeState C) (unread : List B) :
    List Token → Except Failure (HandshakeState C × List B)
  | [] => .ok (state, unread)
  | token :: rest => do
      let (state, unread) ← readToken log state unread token
      readTokens log state unread rest

end Reading

/-- `#step`.  A call that fails also keeps what it changed until then, but nothing of a
failed handshake can be read. -/
def step {α : Type} (state : HandshakeState C) (writing : Bool)
    (run : List Token → Except Failure (α × HandshakeState C)) :
    Except Failure α × HandshakeState C :=
  if state.failed then (.error (.noise "The handshake has failed"), state)
  else
    let result : Except Failure (α × HandshakeState C) :=
      match state.messages[state.index]? with
      | none => .error (.noise "The handshake is complete")
      | some tokens =>
          if writing ≠ (state.initiator == (state.index % 2 == 0)) then
            .error (.noise ("It is not this side's turn to " ++
              if writing then "write" else "read"))
          else run tokens
    match result with
    | .ok (value, after) => (.ok value, { after with index := state.index + 1 })
    | .error e => (.error e, { state with failed := true })

/-- The body of `writeMessage`. -/
def write (log : Log B) (state : HandshakeState C) (payload : List B) (tokens : List Token) :
    Except Failure ((List B × Log B) × HandshakeState C) := do
  let (parts, state, log) ← writeTokens log state tokens
  let (ciphertext, symmetric, log) ← state.symmetric.encryptAndHash C log payload
  let message := parts ++ ciphertext
  if MAX_HANDSHAKE_MESSAGE_BYTES < message.length then
    .error (.noise "Handshake message is too large")
  else return ((message, log), { state with symmetric })

/-- `writeMessage`, with the log after it. -/
def writeMessage (log : Log B) (state : HandshakeState C) (payload : List B) :
    Except Failure (List B × Log B) × HandshakeState C :=
  state.step true (state.write log payload)

/-- The body of `readMessage`. -/
def read [DecidableEq B] (log : Log B) (state : HandshakeState C) (message : List B)
    (tokens : List Token) : Except Failure (List B × HandshakeState C) :=
  if MAX_HANDSHAKE_MESSAGE_BYTES < message.length then
    .error (.noise "Handshake message is too large")
  else do
    let (state, unread) ← readTokens log state message tokens
    let (payload, symmetric) ← state.symmetric.decryptAndHash C log unread
    return (payload, { state with symmetric })

def readMessage [DecidableEq B] (log : Log B) (state : HandshakeState C) (message : List B) :
    Except Failure (List B) × HandshakeState C :=
  state.step false (state.read log message)

/-- `split`: this side's sending and receiving cipher states. -/
def split (state : HandshakeState C) :
    Except Failure (CipherState B × CipherState B) × HandshakeState C :=
  if state.failed || !state.isComplete then
    (.error (.noise "The handshake is not complete"), state)
  else if state.splitDone then
    (.error (.noise "The handshake has already been split"), state)
  else
    let (initiatorToResponder, responderToInitiator) := state.symmetric.split C
    (.ok (if state.initiator then (initiatorToResponder, responderToInitiator)
      else (responderToInitiator, initiatorToResponder)), { state with splitDone := true })

end HandshakeState

end Stim.Noise
