import Stim.Lib.CheckedReads
import Stim.Lib.JsString

/-!
# Video packets

A packet carries one access unit on a subscription: a header with packed flags, two lengths and the
subscription's name, and then the unit's bytes.  A host's packet is relayed under another name by
rewriting its header in place.

The outer `Option` of a reader is `none` where it would read past the bytes or throw.  A capture
time is the 64 bits of its double.
-/

namespace Stim.Video

open CheckedReads

abbrev Bytes := List UInt8

def VIDEO_HEADER_VERSION : Nat := 1

def VIDEO_KEYFRAME : Nat := 1

def VIDEO_FOLDED : Nat := 2

def VIDEO_UNFOLDED : Nat := 4

def VIDEO_ARTWORK : Nat := 32

def FIXED_HEADER_BYTES : Nat := 21

inductive Posture where
  | folded
  | unfolded
  deriving DecidableEq, Repr

/-- One access unit of the helper. -/
structure AccessUnit where
  keyframe : Bool
  capturedAt : UInt64
  width : UInt16
  height : UInt16
  posture : Option Posture
  artworkTurns : Option (Fin 4)
  data : Bytes
  deriving DecidableEq, Repr

def keyframeFlag (keyframe : Bool) : Nat := if keyframe then VIDEO_KEYFRAME else 0

def postureFlag : Option Posture → Nat
  | some .folded => VIDEO_FOLDED
  | some .unfolded => VIDEO_UNFOLDED
  | none => 0

def artworkFlag : Option (Fin 4) → Nat
  | none => 0
  | some turns => VIDEO_ARTWORK ||| (turns.val <<< 3)

/-- `(flags & flag) !== 0` -/
def hasFlag (flags flag : Nat) : Bool := flags &&& flag ≠ 0

/-- `Buffer.from(text, 'ascii')` -/
def asciiBytes (text : JsString) : Bytes := text.map fun unit => UInt8.ofNat (unit.toNat % 256)

/-- `toString('ascii')` -/
def asciiText (bytes : Bytes) : JsString := bytes.map fun byte => UInt16.ofNat (byte.toNat % 128)

/-- The header in front of a subscription's name. -/
def fixedHeader (sequence : Int) (unit : AccessUnit) (idLength : Nat) : Bytes :=
  BigEndian.bytes 1 VIDEO_HEADER_VERSION ++
    (BigEndian.bytes 1 (keyframeFlag unit.keyframe ||| postureFlag unit.posture |||
      artworkFlag unit.artworkTurns) ++
    (BigEndian.bytes 2 (FIXED_HEADER_BYTES + idLength) ++
    (BigEndian.bytes 4 (sequence % 2 ^ 32).toNat ++
    (BigEndian.bytes 8 unit.capturedAt.toNat ++
    (BigEndian.bytes 2 unit.width.toNat ++
    (BigEndian.bytes 2 unit.height.toNat ++ BigEndian.bytes 1 idLength))))))

/-- The message of a unit, or `none` where the name is too long for `writeUInt8`. -/
def videoPacket (subscription : JsString) (sequence : Int) (unit : AccessUnit) : Option Bytes :=
  let id := asciiBytes subscription
  if id.length < 256 then some (fixedHeader sequence unit id.length ++ (id ++ unit.data)) else none

def videoSubscription (packet : Bytes) : Option (Option JsString) :=
  if packet.length < FIXED_HEADER_BYTES then some none
  else do
    let version ← readBE packet 0 1
    if version ≠ VIDEO_HEADER_VERSION then return none
    let idLength ← readBE packet 20 1
    let headerBytes := FIXED_HEADER_BYTES + idLength
    if packet.length < headerBytes then return none
    if (← readBE packet 2 2) ≠ headerBytes then return none
    let id ← slice packet FIXED_HEADER_BYTES idLength
    return some (asciiText id)

def accessUnitOf (packet : Bytes) : Option (Option AccessUnit) := do
  match ← videoSubscription packet with
  | none => return none
  | some _ =>
    let flags ← readBE packet 1 1
    let posture := if hasFlag flags VIDEO_FOLDED then some .folded
      else if hasFlag flags VIDEO_UNFOLDED then some .unfolded else none
    let capturedAt ← readBE packet 8 8
    let width ← readBE packet 16 2
    let height ← readBE packet 18 2
    let headerBytes ← readBE packet 2 2
    return some {
      keyframe := hasFlag flags VIDEO_KEYFRAME
      capturedAt := UInt64.ofNat capturedAt
      width := UInt16.ofNat width
      height := UInt16.ofNat height
      posture := posture
      artworkTurns :=
        if hasFlag flags VIDEO_ARTWORK then some (Fin.ofNat 4 ((flags >>> 3) &&& 3)) else none
      data := packet.drop headerBytes }

/-- Bytes written over a buffer at an offset. -/
def overwrite (data : Bytes) (offset : Nat) (bytes : Bytes) : Bytes :=
  data.take offset ++ (bytes ++ data.drop (offset + bytes.length))

def rewriteVideoSubscription (packet : Bytes) (upstream subscription : JsString) :
    Option (Option Bytes) := do
  if (← videoSubscription packet) ≠ some upstream then return none
  let id := asciiBytes subscription
  if 256 ≤ id.length then none
  else
    let header := overwrite (overwrite (packet.take FIXED_HEADER_BYTES) 2
      (BigEndian.bytes 2 (FIXED_HEADER_BYTES + id.length))) 20 (BigEndian.bytes 1 id.length)
    return some (header ++ id ++ packet.drop (FIXED_HEADER_BYTES + upstream.length))

/-! ## The fields of a packet -/

/-- The packed flags of a unit. -/
def AccessUnit.flags (unit : AccessUnit) : Nat :=
  keyframeFlag unit.keyframe ||| postureFlag unit.posture ||| artworkFlag unit.artworkTurns

/-- What the readers take out of the flags. -/
theorem flags_fields (unit : AccessUnit) :
    unit.flags < 256 ∧ hasFlag unit.flags VIDEO_KEYFRAME = unit.keyframe ∧
      (if hasFlag unit.flags VIDEO_FOLDED then some Posture.folded
        else if hasFlag unit.flags VIDEO_UNFOLDED then some Posture.unfolded
        else none) = unit.posture ∧
      (if hasFlag unit.flags VIDEO_ARTWORK then some (Fin.ofNat 4 ((unit.flags >>> 3) &&& 3))
        else none) = unit.artworkTurns := by
  unfold AccessUnit.flags
  generalize unit.keyframe = keyframe
  generalize unit.posture = posture
  rcases unit.artworkTurns with _ | turns
  · cases keyframe <;> rcases posture with _ | _ | _ <;> decide
  · revert turns
    cases keyframe <;> rcases posture with _ | _ | _ <;> decide

/-- What the readers find in a packet of a unit under a name of so many bytes. -/
structure Fields (packet : Bytes) (unit : AccessUnit) (id : Bytes) : Prop where
  version : readBE packet 0 1 = some VIDEO_HEADER_VERSION
  flags : readBE packet 1 1 = some unit.flags
  headerBytes : readBE packet 2 2 = some (FIXED_HEADER_BYTES + id.length)
  capturedAt : readBE packet 8 8 = some unit.capturedAt.toNat
  width : readBE packet 16 2 = some unit.width.toNat
  height : readBE packet 18 2 = some unit.height.toNat
  idLength : readBE packet 20 1 = some id.length
  name : slice packet FIXED_HEADER_BYTES id.length = some id
  length : packet.length = FIXED_HEADER_BYTES + (id.length + unit.data.length)
  data : packet.drop (FIXED_HEADER_BYTES + id.length) = unit.data

theorem length_fixedHeader (sequence : Int) (unit : AccessUnit) (idLength : Nat) :
    (fixedHeader sequence unit idLength).length = FIXED_HEADER_BYTES := by
  simp [fixedHeader, FIXED_HEADER_BYTES]

theorem fields {id : Bytes} (sequence : Int) (unit : AccessUnit) (hId : id.length < 256) :
    Fields (fixedHeader sequence unit id.length ++ (id ++ unit.data)) unit id := by
  have hHeader : FIXED_HEADER_BYTES + id.length < 256 ^ 2 := by
    rw [FIXED_HEADER_BYTES]
    omega
  generalize hPacket : fixedHeader sequence unit id.length ++ (id ++ unit.data) = packet
  have hLength : packet.length = FIXED_HEADER_BYTES + (id.length + unit.data.length) := by
    rw [← hPacket, List.length_append, length_fixedHeader, List.length_append]
  -- the fields one behind the other, as the header is written
  have h0 : packet.drop 0 = _ := hPacket.symm
  simp only [fixedHeader, List.append_assoc] at h0
  have h1 := drop_field h0 (BigEndian.length_bytes _ _)
  have h2 := drop_field h1 (BigEndian.length_bytes _ _)
  have h4 := drop_field h2 (BigEndian.length_bytes _ _)
  have h8 := drop_field h4 (BigEndian.length_bytes _ _)
  have h16 := drop_field h8 (BigEndian.length_bytes _ _)
  have h18 := drop_field h16 (BigEndian.length_bytes _ _)
  have h20 := drop_field h18 (BigEndian.length_bytes _ _)
  have h21 : packet.drop FIXED_HEADER_BYTES = _ := drop_field h20 (BigEndian.length_bytes _ _)
  exact {
    version := readBE_field h0 (by decide) (by decide)
    flags := readBE_field h1 (by decide) (flags_fields unit).1
    headerBytes := readBE_field h2 (by decide) hHeader
    capturedAt := readBE_field h8 (by decide) unit.capturedAt.toNat_lt
    width := readBE_field h16 (by decide) unit.width.toNat_lt
    height := readBE_field h18 (by decide) unit.height.toNat_lt
    idLength := readBE_field h20 (by decide) hId
    name := slice_field h21 rfl (by omega)
    length := hLength
    data := drop_field h21 rfl }

/-! ## Reading a packet back -/

/-- A name that the host gives a subscription. -/
structure Subscription where
  name : JsString
  ascii : ∀ unit ∈ name, unit.toNat < 128
  length : name.length ≤ 255

theorem length_asciiBytes (text : JsString) : (asciiBytes text).length = text.length :=
  List.length_map _

theorem asciiText_asciiBytes {text : JsString} (h : ∀ unit ∈ text, unit.toNat < 128) :
    asciiText (asciiBytes text) = text := by
  rw [asciiText, asciiBytes, List.map_map]
  conv_rhs => rw [← List.map_id text]
  apply List.map_congr_left
  intro unit hUnit
  have hSmall := h unit hUnit
  apply UInt16.toNat_inj.mp
  simp only [Function.comp, UInt8.toNat_ofNat', UInt16.toNat_ofNat', id]
  omega

section readers

variable {packet : Bytes} {unit : AccessUnit} {id : Bytes}

theorem Fields.videoSubscription_eq (h : Fields packet unit id) :
    videoSubscription packet = some (some (asciiText id)) := by
  have hFixed : ¬ packet.length < FIXED_HEADER_BYTES := by
    rw [h.length]
    omega
  have hLong : ¬ packet.length < FIXED_HEADER_BYTES + id.length := by
    rw [h.length]
    omega
  simp [videoSubscription, hFixed, hLong, h.version, h.idLength, h.headerBytes, h.name]

theorem Fields.accessUnitOf_eq (h : Fields packet unit id) :
    accessUnitOf packet = some (some unit) := by
  obtain ⟨-, hKeyframe, hPosture, hArtwork⟩ := flags_fields unit
  have hData : packet.drop (FIXED_HEADER_BYTES + id.length) = unit.data := h.data
  simp only [accessUnitOf, h.videoSubscription_eq, h.flags, h.capturedAt, h.width, h.height,
    h.headerBytes, Option.bind_eq_bind, Option.bind_some, hKeyframe, hPosture, hArtwork, hData,
    UInt64.ofNat_toNat, UInt16.ofNat_toNat]
  rfl

end readers

/-- The two length fields are all that a name changes in the fixed header. -/
theorem overwrite_fixedHeader (sequence : Int) (unit : AccessUnit) (before after : Nat) :
    overwrite (overwrite (fixedHeader sequence unit before) 2
      (BigEndian.bytes 2 (FIXED_HEADER_BYTES + after))) 20 (BigEndian.bytes 1 after) =
      fixedHeader sequence unit after := rfl

theorem videoPacket_eq {subscription : JsString} (sequence : Int) (unit : AccessUnit)
    (h : subscription.length ≤ 255) :
    videoPacket subscription sequence unit =
      some (fixedHeader sequence unit (asciiBytes subscription).length ++
        (asciiBytes subscription ++ unit.data)) := by
  rw [videoPacket]
  exact if_pos (by rw [length_asciiBytes]; omega)

theorem rewriteVideoSubscription_other {packet : Bytes} {carried : Option JsString}
    {upstream : JsString} (h : videoSubscription packet = some carried)
    (hOther : carried ≠ upstream) (subscription : JsString) :
    rewriteVideoSubscription packet upstream subscription = some none := by
  simp [rewriteVideoSubscription, h, hOther]

/-- A packet under one name becomes the packet under the other. -/
theorem rewriteVideoSubscription_eq {sequence : Int} {unit : AccessUnit} {packet packet' : Bytes}
    (a b : Subscription) (h : videoPacket a.name sequence unit = some packet)
    (h' : videoPacket b.name sequence unit = some packet') :
    rewriteVideoSubscription packet a.name b.name = some (some packet') := by
  rw [videoPacket_eq _ _ a.length, Option.some.injEq] at h
  rw [videoPacket_eq _ _ b.length, Option.some.injEq] at h'
  have hFields : Fields packet unit (asciiBytes a.name) :=
    h ▸ fields sequence unit (by rw [length_asciiBytes]; have := a.length; omega)
  have hName : videoSubscription packet = some (some a.name) := by
    rw [hFields.videoSubscription_eq, asciiText_asciiBytes a.ascii]
  have hFixed : packet.take FIXED_HEADER_BYTES =
      fixedHeader sequence unit (asciiBytes a.name).length := by
    rw [← h]
    exact List.take_left' (length_fixedHeader sequence unit _)
  have hData : packet.drop (FIXED_HEADER_BYTES + a.name.length) = unit.data := by
    rw [← length_asciiBytes]
    exact hFields.data
  have hShort : ¬ 256 ≤ (asciiBytes b.name).length := by
    rw [length_asciiBytes]
    have := b.length
    omega
  rw [rewriteVideoSubscription, hName]
  simp only [Option.bind_eq_bind, Option.bind_some, ne_eq, not_true_eq_false, if_false,
    if_neg hShort, hFixed, hData, overwrite_fixedHeader]
  rw [← h', List.append_assoc]
  rfl

/-! ## Readers of any bytes -/

section any

variable (packet : Bytes)

/-- A packet that names a subscription has its fixed header. -/
theorem videoSubscription_length {carried : JsString}
    (h : videoSubscription packet = some (some carried)) : FIXED_HEADER_BYTES ≤ packet.length := by
  by_contra hShort
  rw [videoSubscription, if_pos (by omega)] at h
  cases h

theorem videoSubscription_ends : ∃ carried, videoSubscription packet = some carried := by
  unfold videoSubscription
  split_ifs with hFixed
  · exact ⟨none, rfl⟩
  have hFixed' : 21 ≤ packet.length := Nat.le_of_not_lt hFixed
  obtain ⟨version, hVersion, -⟩ := readBE_isSome 0 1 (show _ ≤ packet.length by omega)
  obtain ⟨idLength, hIdLength, -⟩ :=
    readBE_isSome 20 1 (show _ ≤ packet.length by omega)
  obtain ⟨headerBytes, hHeaderBytes, -⟩ :=
    readBE_isSome 2 2 (show _ ≤ packet.length by omega)
  simp only [hVersion, hIdLength, hHeaderBytes, Option.bind_eq_bind, Option.bind_some]
  split_ifs with hOld hLong hOther
  · exact ⟨none, rfl⟩
  · exact ⟨none, rfl⟩
  · exact ⟨none, rfl⟩
  · obtain ⟨id, hId, -⟩ := slice_isSome (Nat.le_of_not_lt hLong)
    rw [hId]
    exact ⟨_, rfl⟩

theorem accessUnitOf_ends : ∃ unit, accessUnitOf packet = some unit := by
  obtain ⟨carried, hCarried⟩ := videoSubscription_ends packet
  rw [accessUnitOf, hCarried]
  cases carried with
  | none => exact ⟨none, rfl⟩
  | some name =>
      have hFixed := videoSubscription_length packet hCarried
      rw [FIXED_HEADER_BYTES] at hFixed
      obtain ⟨flags, hFlags, -⟩ := readBE_isSome 1 1 (show _ ≤ packet.length by omega)
      obtain ⟨time, hTime, -⟩ := readBE_isSome 8 8 (show _ ≤ packet.length by omega)
      obtain ⟨width, hWidth, -⟩ :=
        readBE_isSome 16 2 (show _ ≤ packet.length by omega)
      obtain ⟨height, hHeight, -⟩ :=
        readBE_isSome 18 2 (show _ ≤ packet.length by omega)
      obtain ⟨header, hHeader, -⟩ :=
        readBE_isSome 2 2 (show _ ≤ packet.length by omega)
      simp only [hFlags, hTime, hWidth, hHeight, hHeader, Option.bind_eq_bind, Option.bind_some]
      exact ⟨_, rfl⟩

theorem rewriteVideoSubscription_ends (upstream : JsString) (subscription : Subscription) :
    ∃ rewritten, rewriteVideoSubscription packet upstream subscription.name = some rewritten := by
  obtain ⟨carried, hCarried⟩ := videoSubscription_ends packet
  by_cases hOther : carried = upstream
  · have hShort : ¬ 256 ≤ (asciiBytes subscription.name).length := by
      rw [length_asciiBytes]
      have := subscription.length
      omega
    simp only [rewriteVideoSubscription, hCarried, hOther, Option.bind_eq_bind, Option.bind_some,
      ne_eq, not_true_eq_false, if_false, if_neg hShort]
    exact ⟨_, rfl⟩
  · exact ⟨none, rewriteVideoSubscription_other hCarried hOther _⟩

end any

/-- A unit keeps its fields and its bytes under every name that its packet is relayed under, and no
bytes make a reader read past them. -/
theorem unit_kept_by_relaying (a b : Subscription) (sequence : Int) (unit : AccessUnit) :
    (∃ packet packet', videoPacket a.name sequence unit = some packet ∧
      videoPacket b.name sequence unit = some packet' ∧
      accessUnitOf packet = some (some unit) ∧
      videoSubscription packet = some (some a.name) ∧
      rewriteVideoSubscription packet a.name b.name = some (some packet') ∧
      ∀ upstream, upstream ≠ a.name →
        rewriteVideoSubscription packet upstream b.name = some none) ∧
    ∀ (bytes : Bytes) (upstream : JsString),
      (∃ carried, videoSubscription bytes = some carried) ∧
      (∃ read, accessUnitOf bytes = some read) ∧
      ∃ rewritten, rewriteVideoSubscription bytes upstream b.name = some rewritten := by
  constructor
  · have hPacket := videoPacket_eq sequence unit a.length
    have hPacket' := videoPacket_eq sequence unit b.length
    have hShort : (asciiBytes a.name).length < 256 := by
      rw [length_asciiBytes]
      have := a.length
      omega
    have hFields := fields sequence unit hShort
    have hName := hFields.videoSubscription_eq
    rw [asciiText_asciiBytes a.ascii] at hName
    refine ⟨_, _, hPacket, hPacket', hFields.accessUnitOf_eq, hName,
      rewriteVideoSubscription_eq a b hPacket hPacket', ?_⟩
    intro upstream hUpstream
    exact rewriteVideoSubscription_other hName (fun h => hUpstream (Option.some.inj h).symm) _
  · intro bytes upstream
    exact ⟨videoSubscription_ends bytes, accessUnitOf_ends bytes,
      rewriteVideoSubscription_ends bytes upstream b⟩

end Stim.Video
