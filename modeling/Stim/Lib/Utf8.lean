import Stim.Lib.Lines

/-!
# Decoding UTF-8 in pieces

The decoder that replaces what is not UTF-8, one byte at a time: a byte that cannot continue the
character before it replaces that character and starts anew.  A decoder that is kept between
pieces decodes what one piece would have given; a decoder that is not kept replaces a character
that a cut falls into.
-/

namespace Stim.Utf8

/-- A character whose last `need` bytes are missing; the next one is between `lower` and
`upper`. -/
structure Owed where
  need : Nat
  lower : Nat
  upper : Nat
  point : Nat
  above : 0x80 ≤ lower
  deriving DecidableEq

def replacement : Char := '\ufffd'

/-- The first byte of a character. -/
def first (b : Nat) : Option Owed × List Char :=
  if b < 0x80 then (none, [Char.ofNat b])
  else if 0xc2 ≤ b ∧ b < 0xe0 then (some ⟨1, 0x80, 0xbf, b - 0xc0, by decide⟩, [])
  else if 0xe0 ≤ b ∧ b < 0xf0 then
    (some ⟨2, if b = 0xe0 then 0xa0 else 0x80, if b = 0xed then 0x9f else 0xbf, b - 0xe0,
      by split_ifs <;> decide⟩, [])
  else if 0xf0 ≤ b ∧ b < 0xf5 then
    (some ⟨3, if b = 0xf0 then 0x90 else 0x80, if b = 0xf4 then 0x8f else 0xbf, b - 0xf0,
      by split_ifs <;> decide⟩, [])
  else (none, [replacement])

def step (state : Option Owed) (byte : UInt8) : Option Owed × List Char :=
  match state with
  | none => first byte.toNat
  | some owed =>
      if owed.lower ≤ byte.toNat ∧ byte.toNat ≤ owed.upper then
        let point := owed.point * 64 + (byte.toNat - 0x80)
        if owed.need ≤ 1 then (none, [Char.ofNat point])
        else (some ⟨owed.need - 1, 0x80, 0xbf, point, by decide⟩, [])
      else ((first byte.toNat).1, replacement :: (first byte.toNat).2)

/-- The decoder after some bytes, and what it read. -/
def feed (state : Option Owed) : List UInt8 → Option Owed × List Char
  | [] => (state, [])
  | byte :: bytes =>
      let next := step state byte
      let later := feed next.1 bytes
      (later.1, next.2 ++ later.2)

/-- What the decoder reads at the end of its bytes. -/
def flush : Option Owed → List Char
  | none => []
  | some _ => [replacement]

/-- The text of bytes that are decoded on their own. -/
def decode (bytes : List UInt8) : List Char :=
  (feed none bytes).2 ++ flush (feed none bytes).1

def encodeChar (c : Char) : List UInt8 :=
  let n := c.toNat
  if n < 0x80 then [.ofNat n]
  else if n < 0x800 then [.ofNat (0xc0 + n / 64), .ofNat (0x80 + n % 64)]
  else if n < 0x10000 then
    [.ofNat (0xe0 + n / 4096), .ofNat (0x80 + n / 64 % 64), .ofNat (0x80 + n % 64)]
  else
    [.ofNat (0xf0 + n / 262144), .ofNat (0x80 + n / 4096 % 64), .ofNat (0x80 + n / 64 % 64),
      .ofNat (0x80 + n % 64)]

def encode (text : List Char) : List UInt8 := text.flatMap encodeChar

def newline : UInt8 := 0x0a

/-! ## Feeding in pieces -/

theorem feed_append (state : Option Owed) (a b : List UInt8) :
    feed state (a ++ b) =
      ((feed (feed state a).1 b).1, (feed state a).2 ++ (feed (feed state a).1 b).2) := by
  induction a generalizing state with
  | nil => rfl
  | cons byte a ih =>
      show ((feed (step state byte).1 (a ++ b)).1, _ ++ (feed (step state byte).1 (a ++ b)).2) = _
      rw [ih]
      simp [feed]

variable {byte : UInt8}

/-- A byte below 128 is a character, and ends the one before it. -/
theorem step_ascii (state : Option Owed) (h : byte.toNat < 0x80) :
    step state byte = (none, flush state ++ [Char.ofNat byte.toNat]) := by
  have hfirst : first byte.toNat = (none, [Char.ofNat byte.toNat]) := by simp [first, h]
  cases state with
  | none => exact hfirst
  | some owed =>
      have habove := owed.above
      have hnot : ¬ (owed.lower ≤ byte.toNat ∧ byte.toNat ≤ owed.upper) := by omega
      simp only [step, if_neg hnot, hfirst]
      rfl

theorem feed_newline (state : Option Owed) (bytes : List UInt8) :
    feed state (newline :: bytes) =
      ((feed none bytes).1, flush state ++ '\n' :: (feed none bytes).2) := by
  have hstep : step state newline = (none, flush state ++ ['\n']) :=
    step_ascii state (by decide)
  simp [feed, hstep]

/-- Bytes up to the end of a line are decoded on their own. -/
theorem decode_newline (a b : List UInt8) :
    decode (a ++ newline :: b) = decode a ++ '\n' :: decode b := by
  simp [decode, feed_append, feed_newline]

/-- A piece that ends between characters is decoded on its own. -/
theorem decode_append {a : List UInt8} (h : (feed none a).1 = none) (b : List UInt8) :
    decode (a ++ b) = decode a ++ decode b := by
  simp [decode, feed_append, h, flush]

/-! ## Lines -/

/-- What is owed makes no character below 128. -/
def Owed.Wide (owed : Owed) : Prop :=
  2 ≤ owed.point * 64 + (owed.lower - 0x80) ∧ (owed.need ≤ 1 → 2 ≤ owed.point)

theorem ofNat_ne_newline {n : Nat} (h : n ≠ 10) : Char.ofNat n ≠ '\n' := by
  by_cases hvalid : n.isValidChar
  · intro heq
    have hval := congrArg Char.toNat heq
    rw [Char.ofNat, dif_pos hvalid] at hval
    have hn : n = 10 := hval
    exact h hn
  · rw [Char.ofNat, dif_neg hvalid]
    decide

variable {owed : Owed}

variable {b : Nat}

theorem first_wide (h : (first b).1 = some owed) : owed.Wide := by
  unfold first at h
  split_ifs at h <;> cases h <;> constructor <;> dsimp only <;> omega

theorem newline_not_mem_first (h : b ≠ 10) : '\n' ∉ (first b).2 := by
  unfold first
  split_ifs <;> simp [replacement, (ofNat_ne_newline h).symm]

variable {state : Option Owed}

theorem step_wide (hwide : ∀ owed ∈ state, owed.Wide) (h : (step state byte).1 = some owed) :
    owed.Wide := by
  cases state with
  | none => exact first_wide h
  | some before =>
      have hbefore := (hwide before rfl).1
      have habove := before.above
      unfold step at h
      dsimp only at h
      split_ifs at h with hin hlast
      · cases h
        refine ⟨?_, fun _ => ?_⟩ <;> dsimp only <;> omega
      · exact first_wide h

theorem newline_not_mem_step (hwide : ∀ owed ∈ state, owed.Wide) (h : byte ≠ newline) :
    '\n' ∉ (step state byte).2 := by
  have hbyte : byte.toNat ≠ 10 := fun heq => h (UInt8.toNat_inj.mp heq)
  cases state with
  | none => exact newline_not_mem_first hbyte
  | some owed =>
      have hpoint := (hwide owed rfl).2
      unfold step
      dsimp only
      split_ifs with hin hlast
      · have hlarge := hpoint hlast
        simpa using (ofNat_ne_newline (by omega)).symm
      · simp
      · simpa [replacement] using newline_not_mem_first hbyte

theorem newline_not_mem_feed (hwide : ∀ owed ∈ state, owed.Wide) {bytes : List UInt8}
    (h : newline ∉ bytes) : '\n' ∉ (feed state bytes).2 := by
  induction bytes generalizing state with
  | nil => simp [feed]
  | cons byte bytes ih =>
      rw [List.mem_cons, not_or] at h
      simp only [feed, List.mem_append, not_or]
      exact ⟨newline_not_mem_step hwide (Ne.symm h.1), ih (fun owed hmem => step_wide hwide hmem) h.2⟩

theorem newline_not_mem_decode {bytes : List UInt8} (h : newline ∉ bytes) : '\n' ∉ decode bytes := by
  have hnone : ∀ owed ∈ (none : Option Owed), owed.Wide := by simp
  have hfeed := newline_not_mem_feed hnone h
  have hflush : ∀ state, '\n' ∉ flush state := by
    intro state
    cases state <;> simp [flush, replacement]
  simp [decode, hfeed, hflush]

/-- The lines of a decoded text are its lines, decoded. -/
theorem complete_decode (bytes : List UInt8) :
    Lines.complete '\n' (decode bytes) = (Lines.complete newline bytes).map decode := by
  induction bytes using @Lines.line_induction _ _ newline with
  | last bytes h =>
      rw [Lines.complete_of_not_mem h, Lines.complete_of_not_mem (newline_not_mem_decode h)]
      rfl
  | line line bytes h ih =>
      rw [decode_newline, Lines.complete_line (newline_not_mem_decode h), Lines.complete_line h, ih,
        List.map_cons]

/-! ## UTF-8 -/

/-- A byte that continues a character and does not end it. -/
theorem step_more (hb : b < 256) (hlower : owed.lower ≤ b) (hupper : b ≤ owed.upper)
    (hneed : 1 < owed.need) :
    step (some owed) (.ofNat b) =
      (some ⟨owed.need - 1, 0x80, 0xbf, owed.point * 64 + (b - 0x80), by decide⟩, []) := by
  have hbyte : (UInt8.ofNat b).toNat = b := by simp [Nat.mod_eq_of_lt hb]
  have hneed' : ¬ owed.need ≤ 1 := by omega
  simp [step, hbyte, hlower, hupper, hneed']

theorem step_last (hb : b < 256) (hlower : owed.lower ≤ b) (hupper : b ≤ owed.upper)
    (hneed : owed.need = 1) :
    step (some owed) (.ofNat b) = (none, [Char.ofNat (owed.point * 64 + (b - 0x80))]) := by
  have hbyte : (UInt8.ofNat b).toNat = b := by simp [Nat.mod_eq_of_lt hb]
  simp [step, hbyte, hlower, hupper, hneed]

theorem step_two {k : Nat} (hlow : 2 ≤ k) (hhigh : k < 32) :
    step none (.ofNat (0xc0 + k)) = (some ⟨1, 0x80, 0xbf, k, by decide⟩, []) := by
  have hbyte : (UInt8.ofNat (0xc0 + k)).toNat = 0xc0 + k := by
    simp [Nat.mod_eq_of_lt (show 0xc0 + k < 256 by omega)]
  simp only [step, hbyte, first]
  rw [if_neg (by omega), if_pos (by omega)]
  simp

theorem step_three {k : Nat} (hhigh : k < 16) :
    step none (.ofNat (0xe0 + k)) =
      (some ⟨2, if k = 0 then 0xa0 else 0x80, if k = 13 then 0x9f else 0xbf, k,
        by split_ifs <;> decide⟩, []) := by
  have hbyte : (UInt8.ofNat (0xe0 + k)).toNat = 0xe0 + k := by
    simp [Nat.mod_eq_of_lt (show 0xe0 + k < 256 by omega)]
  have hed : 0xe0 + k = 0xed ↔ k = 13 := by omega
  simp only [step, hbyte, first]
  rw [if_neg (by omega), if_neg (by omega), if_pos (by omega)]
  simp [hed]

theorem step_four {k : Nat} (hhigh : k < 5) :
    step none (.ofNat (0xf0 + k)) =
      (some ⟨3, if k = 0 then 0x90 else 0x80, if k = 4 then 0x8f else 0xbf, k,
        by split_ifs <;> decide⟩, []) := by
  have hbyte : (UInt8.ofNat (0xf0 + k)).toNat = 0xf0 + k := by
    simp [Nat.mod_eq_of_lt (show 0xf0 + k < 256 by omega)]
  have hf4 : 0xf0 + k = 0xf4 ↔ k = 4 := by omega
  simp only [step, hbyte, first]
  rw [if_neg (by omega), if_neg (by omega), if_neg (by omega), if_pos (by omega)]
  simp [hf4]

theorem feed_encodeChar (c : Char) : feed none (encodeChar c) = (none, [c]) := by
  have hvalid : c.toNat < 0xd800 ∨ 0xdfff < c.toNat ∧ c.toNat < 0x110000 := c.valid
  have hself : Char.ofNat c.toNat = c := Char.ofNat_toNat c
  unfold encodeChar
  generalize c.toNat = n at hvalid hself
  dsimp only
  split_ifs with h1 h2 h3
  · simp [feed, step, first, Nat.mod_eq_of_lt (show n < 256 by omega), h1, hself]
  · simp only [feed, step_two (show 2 ≤ n / 64 by omega) (show n / 64 < 32 by omega)]
    rw [step_last (by omega) (by dsimp only; omega) (by dsimp only; omega) rfl]
    simp only [List.nil_append, List.append_nil]
    rw [show n / 64 * 64 + (0x80 + n % 64 - 0x80) = n by omega, hself]
  · simp only [feed, step_three (show n / 4096 < 16 by omega)]
    rw [step_more (by omega) (by dsimp only; split_ifs <;> omega)
      (by dsimp only; split_ifs <;> omega) (Nat.one_lt_succ_succ _)]
    dsimp only
    rw [step_last (by omega) (by dsimp only; omega) (by dsimp only; omega) rfl]
    simp only [List.nil_append, List.append_nil]
    rw [show (n / 4096 * 64 + (0x80 + n / 64 % 64 - 0x80)) * 64 + (0x80 + n % 64 - 0x80) = n by
      omega, hself]
  · simp only [feed, step_four (show n / 262144 < 5 by omega)]
    rw [step_more (by omega) (by dsimp only; split_ifs <;> omega)
      (by dsimp only; split_ifs <;> omega) (Nat.one_lt_succ_succ _)]
    dsimp only
    rw [step_more (by omega) (by dsimp only; omega) (by dsimp only; omega) (Nat.one_lt_succ_succ _)]
    dsimp only
    rw [step_last (by omega) (by dsimp only; omega) (by dsimp only; omega) rfl]
    simp only [List.nil_append, List.append_nil]
    rw [show ((n / 262144 * 64 + (0x80 + n / 4096 % 64 - 0x80)) * 64 +
      (0x80 + n / 64 % 64 - 0x80)) * 64 + (0x80 + n % 64 - 0x80) = n by omega, hself]

theorem feed_encode (text : List Char) (bytes : List UInt8) :
    feed none (encode text ++ bytes) = ((feed none bytes).1, text ++ (feed none bytes).2) := by
  induction text with
  | nil => rfl
  | cons c text ih =>
      have hcons : encode (c :: text) ++ bytes = encodeChar c ++ (encode text ++ bytes) := by
        simp [encode]
      rw [hcons, feed_append, feed_encodeChar, ih]
      rfl

theorem decode_encode (text : List Char) : decode (encode text) = text := by
  have h := feed_encode text []
  rw [List.append_nil] at h
  simp [decode, h, feed, flush]

end Stim.Utf8
