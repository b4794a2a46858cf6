import Mathlib.Data.List.TakeWhile
import Stim.Server.UsageHistory

/-!
# The readings of one series

What the calls of a recorder say of one series, and the reading that they give it in a slot.  The
recorder keeps slots, whether the series is live, and the last slot of all; `Held` states which
readings these are, and each call keeps it.
-/

namespace Stim.UsageHistory

/-- What a call says of one series. -/
inductive Sample (ρ : Type) where
  /-- A payload in a slot, and the series' reading where the payload holds it. -/
  | payload (slot : Int) (reading : Option ρ)
  | pause
  /-- A report ending at a slot. -/
  | look (slot : Int)
  deriving DecidableEq

namespace Sample

variable {ρ : Type}

def slot? : Sample ρ → Option Int
  | payload slot _ => some slot
  | pause => none
  | look slot => some slot

def isPayload : Sample ρ → Bool
  | payload _ _ => true
  | pause => false
  | look _ => false

end Sample

open Sample

variable {ρ : Type} {samples : List (Sample ρ)}

/-- The slots of the calls do not decrease. -/
def Ordered (samples : List (Sample ρ)) : Prop :=
  (samples.filterMap Sample.slot?).Pairwise (· ≤ ·)

/-! ## The definition -/

/-- The last payload in a slot that held the series had this reading. -/
def InSlot (samples : List (Sample ρ)) (slot : Int) (reading : ρ) : Prop :=
  ∃ before after, samples = before ++ payload slot (some reading) :: after ∧
    ∀ later, payload slot (some later) ∉ after

/-- The last payload before a slot held the series with this reading, and no pause came between it
and the next payload, or now. -/
def Carried (samples : List (Sample ρ)) (slot : Int) (reading : ρ) : Prop :=
  ∃ before earlier after, samples = before ++ payload earlier (some reading) :: after ∧
    earlier < slot ∧ (∀ later held, payload later held ∈ after → slot ≤ later) ∧
    pause ∉ after.takeWhile fun sample => !sample.isPayload

/-- The reading of a series in a slot. -/
def Reads (samples : List (Sample ρ)) (slot : Int) (reading : ρ) : Prop :=
  InSlot samples slot reading ∨
    (∀ held, payload slot held ∉ samples) ∧ Carried samples slot reading

/-! ## One more call -/

theorem append_singleton_eq_iff {α : Type} {list before after : List α} {last item : α} :
    list ++ [last] = before ++ item :: after ↔
      (after = [] ∧ before = list ∧ item = last) ∨
        ∃ rest, after = rest ++ [last] ∧ list = before ++ item :: rest := by
  rcases List.eq_nil_or_concat after with rfl | ⟨rest, final, rfl⟩
  · constructor
    · intro h
      obtain ⟨hList, hItem⟩ := List.append_inj' h rfl
      exact .inl ⟨rfl, hList.symm, (List.cons.inj hItem).1.symm⟩
    · rintro (⟨-, rfl, rfl⟩ | ⟨rest, hNil, -⟩)
      · rfl
      · simp at hNil
  · rw [List.concat_eq_append, ← List.cons_append, ← List.append_assoc]
    constructor
    · intro h
      obtain ⟨hList, hLast⟩ := List.append_inj' h rfl
      exact .inr ⟨rest, by rw [(List.cons.inj hLast).1], hList⟩
    · rintro (⟨hNil, -⟩ | ⟨rest', hRest, rfl⟩)
      · simp at hNil
      · obtain ⟨rfl, hLast⟩ := List.append_inj' hRest rfl
        rw [hLast]

variable {reading : ρ} {sample : Sample ρ} {slot : Int}

theorem inSlot_append :
    InSlot (samples ++ [sample]) slot reading ↔
      sample = payload slot (some reading) ∨
        InSlot samples slot reading ∧ ∀ later, sample ≠ payload slot (some later) := by
  constructor
  · rintro ⟨before, after, hSamples, hLast⟩
    rcases append_singleton_eq_iff.mp hSamples with ⟨-, -, hSample⟩ | ⟨rest, rfl, hRest⟩
    · exact .inl hSample.symm
    · refine .inr ⟨⟨before, rest, hRest, ?_⟩, ?_⟩
      · intro later hMem
        exact hLast later (List.mem_append_left _ hMem)
      · rintro later rfl
        exact hLast later (List.mem_append_right _ (List.mem_singleton.mpr rfl))
  · rintro (rfl | ⟨⟨before, after, rfl, hLast⟩, hOther⟩)
    · exact ⟨samples, [], rfl, fun later => List.not_mem_nil⟩
    · refine ⟨before, after ++ [sample], by simp, ?_⟩
      intro later hMem
      rcases List.mem_append.mp hMem with hMem | hMem
      · exact hLast later hMem
      · exact hOther later (List.mem_singleton.mp hMem).symm

theorem InSlot.mem (h : InSlot samples slot reading) : payload slot (some reading) ∈ samples := by
  obtain ⟨before, after, rfl, -⟩ := h
  simp

/-- A call at the end keeps what was carried, unless it is a payload before the slot or a pause
with no payload in between. -/
theorem Carried.append (h : Carried samples slot reading)
    (hLater : ∀ later held, sample = payload later held → slot ≤ later)
    (hPause : sample = pause → ∃ later held, payload later held ∈ samples ∧ slot ≤ later)
    (hOrdered : Ordered samples) : Carried (samples ++ [sample]) slot reading := by
  obtain ⟨before, earlier, after, rfl, hEarlier, hAfter, hHeld⟩ := h
  refine ⟨before, earlier, after ++ [sample], by simp, hEarlier, ?_, ?_⟩
  · intro later held hMem
    rcases List.mem_append.mp hMem with hMem | hMem
    · exact hAfter later held hMem
    · exact hLater later held (List.mem_singleton.mp hMem).symm
  · rw [List.takeWhile_append]
    split
    · rename_i hAll
      rw [List.mem_append, not_or]
      rw [(List.takeWhile_prefix _).eq_of_length hAll] at hHeld
      refine ⟨hHeld, ?_⟩
      intro hMem
      obtain rfl : sample = pause := by
        have hSelf := (List.takeWhile_prefix _).subset hMem
        exact (List.mem_singleton.mp hSelf).symm
      -- the payload of a later slot stands after the one that is carried
      obtain ⟨later, held, hPayload, hSlot⟩ := hPause rfl
      have hNone : payload later held ∉ after := by
        intro hIn
        rw [← (List.takeWhile_prefix _).eq_of_length hAll] at hIn
        simpa [isPayload] using List.mem_takeWhile_imp hIn
      simp only [List.mem_append, List.mem_cons, hNone, or_false] at hPayload
      rcases hPayload with hBefore | hSame
      · unfold Ordered at hOrdered
        rw [List.filterMap_append, List.pairwise_append] at hOrdered
        have hLe := hOrdered.2.2 later (List.mem_filterMap.mpr ⟨_, hBefore, rfl⟩) earlier
          (List.mem_filterMap.mpr ⟨_, List.mem_cons_self, rfl⟩)
        omega
      · cases hSame
        omega
    · exact hHeld

/-- What is carried after one more call: the reading of a payload before the slot, or what was
carried, where the call is no such payload and no pause right after. -/
theorem Carried.of_append (h : Carried (samples ++ [sample]) slot reading) :
    (∃ earlier, sample = payload earlier (some reading) ∧ earlier < slot) ∨
      Carried samples slot reading ∧
        (∀ later held, sample = payload later held → slot ≤ later) ∧
        (sample = pause → ∃ later held, payload later held ∈ samples ∧ slot ≤ later) := by
  obtain ⟨before, earlier, after, hSamples, hEarlier, hAfter, hHeld⟩ := h
  rcases append_singleton_eq_iff.mp hSamples with ⟨-, -, hSample⟩ | ⟨rest, rfl, rfl⟩
  · exact .inl ⟨earlier, hSample.symm, hEarlier⟩
  · rw [List.takeWhile_append] at hHeld
    refine .inr ⟨⟨before, earlier, rest, rfl, hEarlier, ?_, ?_⟩, ?_, ?_⟩
    · intro later held hMem
      exact hAfter later held (List.mem_append_left _ hMem)
    · split at hHeld
      · intro hMem
        exact hHeld (List.mem_append_left _ ((List.takeWhile_prefix _).subset hMem))
      · exact hHeld
    · rintro later held rfl
      exact hAfter later held (by simp)
    · rintro rfl
      split at hHeld
      · exact absurd (by simp [isPayload]) hHeld
      · -- the calls after the payload do not all pass, so there is another payload
        rename_i hNot
        obtain ⟨next, hNext, hPayload⟩ : ∃ next ∈ rest, next.isPayload = true := by
          by_contra hNone
          refine hNot (congrArg List.length (List.takeWhile_eq_self_iff.mpr ?_))
          intro next hMem
          rw [Bool.not_eq_true']
          exact Bool.eq_false_iff.mpr fun hTrue => hNone ⟨next, hMem, hTrue⟩
        match next, hPayload with
        | payload later held, _ =>
            exact ⟨later, held, by simp [hNext], hAfter later held (by simp [hNext])⟩

theorem carried_append (hOrdered : Ordered samples) :
    Carried (samples ++ [sample]) slot reading ↔
      (∃ earlier, sample = payload earlier (some reading) ∧ earlier < slot) ∨
        Carried samples slot reading ∧
          (∀ later held, sample = payload later held → slot ≤ later) ∧
          (sample = pause → ∃ later held, payload later held ∈ samples ∧ slot ≤ later) := by
  constructor
  · exact Carried.of_append
  · rintro (⟨earlier, rfl, hEarlier⟩ | ⟨h, hLater, hPause⟩)
    · exact ⟨samples, earlier, [], rfl, hEarlier, fun _ _ => nofun, List.not_mem_nil⟩
    · exact h.append hLater hPause hOrdered

/-- A call that is no payload changes the readings only where it changes what is carried. -/
theorem reads_append (hSample : ∀ held, sample ≠ payload slot held)
    (hCarried : Carried (samples ++ [sample]) slot reading ↔ Carried samples slot reading) :
    Reads (samples ++ [sample]) slot reading ↔ Reads samples slot reading := by
  have hSlot : (∀ held, payload slot held ∉ samples ++ [sample]) ↔
      ∀ held, payload slot held ∉ samples := by
    refine forall_congr' fun held => not_congr ?_
    rw [List.mem_append, List.mem_singleton]
    exact or_iff_left fun h => hSample held h.symm
  unfold Reads
  rw [inSlot_append, hSlot, hCarried]
  simp [hSample]

theorem carried_append_look {last slot : Int} (hOrdered : Ordered samples) :
    Carried (samples ++ [look last]) slot reading ↔ Carried samples slot reading := by
  simp [carried_append hOrdered]

theorem carried_append_payload {last slot : Int} {held : Option ρ} (hOrdered : Ordered samples)
    (hSlot : slot ≤ last) :
    Carried (samples ++ [payload last held]) slot reading ↔ Carried samples slot reading := by
  rw [carried_append hOrdered]
  constructor
  · rintro (⟨earlier, hSample, hEarlier⟩ | ⟨h, -⟩)
    · cases hSample
      omega
    · exact h
  · intro h
    refine .inr ⟨h, ?_, nofun⟩
    rintro later held' hSample
    cases hSample
    exact hSlot

theorem carried_append_payload_of_lt {last slot : Int} {held : Option ρ}
    (hOrdered : Ordered samples) (hSlot : last < slot) :
    Carried (samples ++ [payload last held]) slot reading ↔ held = some reading := by
  rw [carried_append hOrdered]
  constructor
  · rintro (⟨earlier, hSample, -⟩ | ⟨-, hLater, -⟩)
    · cases hSample
      rfl
    · have hLe := hLater last held rfl
      omega
  · rintro rfl
    exact .inl ⟨last, rfl, hSlot⟩

theorem carried_append_pause (hOrdered : Ordered samples) :
    Carried (samples ++ [pause]) slot reading ↔
      Carried samples slot reading ∧
        ∃ later held, payload later held ∈ samples ∧ slot ≤ later := by
  simp [carried_append hOrdered]

/-! ## What the recorder keeps of a series -/

structure Series (ρ : Type) where
  slots : Int → Option ρ
  live : Bool

namespace Series

def init : Series ρ := ⟨fun _ => none, false⟩

def prune (lastSlot last : Int) (series : Series ρ) : Series ρ :=
  { series with
    slots := fun slot =>
      if slot ≤ last - POINTS && !(series.live && slot == lastSlot) then none
      else series.slots slot }

def pause (series : Series ρ) : Series ρ := { series with live := false }

/-- The reading of the last slot, repeated up to a slot. -/
def heldThrough (lastSlot last : Int) (series : Series ρ) (slot : Int) : Option ρ :=
  if series.live ∧ max (lastSlot + 1) (last - POINTS + 1) ≤ slot ∧ slot ≤ last then
    (series.slots lastSlot).or (series.slots slot)
  else series.slots slot

def put (slot : Int) (reading : Option ρ) (slots : Int → Option ρ) : Series ρ where
  slots := fun each => if each = slot then reading.or (slots each) else slots each
  live := reading.isSome

def record (lastSlot slot : Int) (reading : Option ρ) (series : Series ρ) : Series ρ :=
  (put slot reading (series.heldThrough lastSlot (slot - 1))).prune (max lastSlot slot) slot

def reported (lastSlot : Int) (series : Series ρ) (slot : Int) : Option ρ :=
  (series.slots slot).or
    (if series.live && decide (lastSlot < slot) then series.slots lastSlot else none)

end Series

/-- What a series keeps after its samples: in the slots from the window up to the last one their
readings, and, while it is live, the reading that is carried on from the last one. -/
structure Held (samples : List (Sample ρ)) (series : Series ρ) (lastSlot clock : Int) : Prop where
  ordered : Ordered samples
  lastSlot_le : lastSlot ≤ clock
  clock_le : ∀ slot ∈ samples.filterMap Sample.slot?, slot ≤ clock
  slots_le : ∀ slot held, payload slot held ∈ samples → slot ≤ lastSlot
  last : (∃ held, payload lastSlot held ∈ samples) ∨ ∀ slot held, payload slot held ∉ samples
  future : ∀ slot, lastSlot < slot → series.slots slot = none
  window : ∀ slot reading, clock - POINTS < slot → slot ≤ lastSlot →
    (series.slots slot = some reading ↔ Reads samples slot reading)
  carried : ∀ slot reading, lastSlot < slot →
    (series.live = true ∧ series.slots lastSlot = some reading ↔ Carried samples slot reading)

theorem held_init : Held [] (Series.init : Series ρ) 0 0 := by
  have hCarried : ∀ slot (reading : ρ), ¬ Carried [] slot reading := by
    rintro slot reading ⟨before, earlier, after, hNil, -⟩
    simp at hNil
  refine ⟨List.Pairwise.nil, Int.le_refl 0, nofun, nofun, .inr nofun, fun _ _ => rfl, ?_, ?_⟩
  · intro slot reading _ _
    constructor
    · intro h
      cases h
    · rintro (⟨before, after, hNil, -⟩ | ⟨-, h⟩)
      · simp at hNil
      · exact absurd h (hCarried slot reading)
  · intro slot reading _
    constructor
    · rintro ⟨h, -⟩
      cases h
    · intro h
      exact absurd h (hCarried slot reading)

theorem Ordered.append (h : Ordered samples) {clock : Int}
    (hClock : ∀ each ∈ samples.filterMap Sample.slot?, each ≤ clock)
    (hSample : ∀ slot, sample.slot? = some slot → clock ≤ slot) :
    Ordered (samples ++ [sample]) := by
  unfold Ordered
  rw [List.filterMap_append, List.pairwise_append]
  refine ⟨h, ?_, ?_⟩
  · cases hSlot : sample.slot? with
    | none => simp [hSlot]
    | some slot => simp [hSlot]
  · intro each hEach slot hMem
    have hSlot : sample.slot? = some slot := by
      cases hSome : sample.slot? with
      | none => simp [hSome] at hMem
      | some slot' => simpa [hSome, eq_comm] using hMem
    exact (hClock each hEach).trans (hSample slot hSlot)

/-! ## Each call keeps it -/

section steps

variable {series : Series ρ} {lastSlot clock : Int}

/-- After the last slot only what is carried counts. -/
theorem Held.reads_of_lt (h : Held samples series lastSlot clock) {slot : Int} {reading : ρ}
    (hSlot : lastSlot < slot) :
    Reads samples slot reading ↔ series.live = true ∧ series.slots lastSlot = some reading := by
  have hNone : ∀ held, payload slot held ∉ samples := by
    intro held hMem
    have hLe := h.slots_le slot held hMem
    omega
  rw [h.carried slot reading hSlot]
  constructor
  · rintro (hIn | ⟨-, hCarried⟩)
    · exact absurd hIn.mem (hNone _)
    · exact hCarried
  · intro hCarried
    exact .inr ⟨hNone, hCarried⟩

theorem Held.pause (h : Held samples series lastSlot clock) :
    Held (samples ++ [.pause]) series.pause lastSlot clock where
  ordered := h.ordered.append h.clock_le nofun
  lastSlot_le := h.lastSlot_le
  clock_le := by simpa [slot?] using h.clock_le
  slots_le := by
    intro slot held hMem
    exact h.slots_le slot held (by simpa using hMem)
  last := by simpa using h.last
  future := h.future
  window := by
    intro slot reading hWindow hSlot
    have hCarried : Carried (samples ++ [.pause]) slot reading ↔ Carried samples slot reading := by
      rw [carried_append_pause h.ordered]
      refine and_iff_left_of_imp fun hCarried => ?_
      -- a series that is carried has a payload, so the last slot has one
      rcases h.last with ⟨held, hLast⟩ | hNone
      · exact ⟨lastSlot, held, hLast, hSlot⟩
      · obtain ⟨before, earlier, after, rfl, -⟩ := hCarried
        exact absurd (by simp) (hNone earlier (some reading))
    rw [reads_append (fun held => by simp) hCarried]
    exact h.window slot reading hWindow hSlot
  carried := by
    intro slot reading hSlot
    rw [carried_append_pause h.ordered]
    constructor
    · rintro ⟨hLive, -⟩
      cases hLive
    · rintro ⟨-, later, held, hMem, hLater⟩
      have hLe := h.slots_le later held hMem
      omega

theorem Series.slots_prune {last slot : Int} (hSlot : last - POINTS < slot) :
    (series.prune lastSlot last).slots slot = series.slots slot := by
  have hNot : ¬ slot ≤ last - POINTS := by omega
  simp [Series.prune, hNot]

theorem Series.slots_prune_lastSlot {last : Int} (hLive : series.live = true) :
    (series.prune lastSlot last).slots lastSlot = series.slots lastSlot := by
  simp [Series.prune, hLive]

/-- What a report leaves. -/
theorem Held.look (h : Held samples series lastSlot clock) {last : Int} (hLast : clock ≤ last) :
    Held (samples ++ [.look last]) (series.prune lastSlot last) lastSlot last where
  ordered := h.ordered.append h.clock_le (by
    intro slot hSlot
    cases hSlot
    exact hLast)
  lastSlot_le := h.lastSlot_le.trans hLast
  clock_le := by
    intro slot hMem
    rw [List.filterMap_append, List.mem_append] at hMem
    rcases hMem with hMem | hMem
    · exact (h.clock_le slot hMem).trans hLast
    · simp [slot?] at hMem
      omega
  slots_le := by
    intro slot held hMem
    exact h.slots_le slot held (by simpa using hMem)
  last := by simpa using h.last
  future := by
    intro slot hSlot
    simp [Series.prune, h.future slot hSlot]
  window := by
    intro slot reading hWindow hSlot
    rw [reads_append (fun held => by simp) (carried_append_look h.ordered),
      Series.slots_prune hWindow]
    exact h.window slot reading (by omega) hSlot
  carried := by
    intro slot reading hSlot
    rw [carried_append_look h.ordered, ← h.carried slot reading hSlot]
    refine and_congr_right fun hLive => ?_
    have hKept : (series.prune lastSlot last).slots lastSlot = series.slots lastSlot :=
      Series.slots_prune_lastSlot hLive
    rw [hKept]

theorem Series.slots_record {slot each : Int} {reading : Option ρ}
    (hWindow : slot - POINTS < each) :
    (series.record lastSlot slot reading).slots each =
      if each = slot then reading.or (series.slots each)
      else series.heldThrough lastSlot (slot - 1) each := by
  unfold Series.record
  rw [Series.slots_prune hWindow]
  unfold Series.put
  dsimp only
  split
  · rename_i hEach
    -- what is repeated ends before the slot
    unfold Series.heldThrough
    rw [if_neg (by omega)]
  · rfl

theorem Series.live_record {slot : Int} {reading : Option ρ} :
    (series.record lastSlot slot reading).live = reading.isSome := rfl

/-- A payload in the slot replaces the reading where it holds the series. -/
theorem Held.slots_payload (h : Held samples series lastSlot clock) {slot : Int}
    {held : Option ρ} {reading : ρ} (hClock : clock ≤ slot) :
    held.or (series.slots slot) = some reading ↔
      Reads (samples ++ [payload slot held]) slot reading := by
  have hIn : series.slots slot = some reading ↔ InSlot samples slot reading := by
    by_cases hSlot : lastSlot < slot
    · rw [h.future slot hSlot]
      refine iff_of_false nofun fun hIn => ?_
      have hLe := h.slots_le slot _ hIn.mem
      omega
    · have hLast : lastSlot = slot := by
        have hLe := h.lastSlot_le
        omega
      subst hLast
      rw [h.window lastSlot reading (by unfold POINTS; omega) (Int.le_refl lastSlot)]
      refine or_iff_left ?_
      -- with no payload in the last slot there is none at all
      rintro ⟨hNone, before, earlier, after, rfl, -⟩
      rcases h.last with ⟨held', hMem⟩ | hEmpty
      · exact hNone held' hMem
      · exact hEmpty earlier (some reading) (by simp)
  have hPayload : ¬ ((∀ held', payload slot held' ∉ samples ++ [payload slot held]) ∧
      Carried (samples ++ [payload slot held]) slot reading) := by
    rintro ⟨hNone, -⟩
    exact hNone held (by simp)
  unfold Reads
  rw [or_iff_left hPayload, inSlot_append, ← hIn]
  cases held with
  | none => simp
  | some value => simp

/-- The slots up to the payload repeat what was carried. -/
theorem Held.heldThrough (h : Held samples series lastSlot clock) {slot each : Int} {reading : ρ}
    (hClock : clock ≤ slot) (hWindow : slot - POINTS < each) (hEach : each < slot) :
    series.heldThrough lastSlot (slot - 1) each = some reading ↔ Reads samples each reading := by
  unfold Series.heldThrough
  by_cases hLast : lastSlot < each
  · rw [h.reads_of_lt hLast]
    by_cases hLive : series.live = true
    · rw [if_pos ⟨hLive, by omega, by omega⟩, h.future each hLast]
      simp [hLive]
    · rw [if_neg fun hAll => hLive hAll.1, h.future each hLast]
      simp [hLive]
  · rw [if_neg (by omega)]
    exact h.window each reading (by omega) (by omega)

theorem Held.record (h : Held samples series lastSlot clock) {slot : Int}
    (hClock : clock ≤ slot) (held : Option ρ) :
    Held (samples ++ [payload slot held]) (series.record lastSlot slot held) (max lastSlot slot)
      slot := by
  have hMax : max lastSlot slot = slot := max_eq_right (h.lastSlot_le.trans hClock)
  rw [hMax]
  constructor
  case ordered =>
    refine h.ordered.append h.clock_le ?_
    intro each hEach
    cases hEach
    exact hClock
  case lastSlot_le => exact Int.le_refl slot
  case clock_le =>
    intro each hMem
    rw [List.filterMap_append, List.mem_append] at hMem
    rcases hMem with hMem | hMem
    · exact (h.clock_le each hMem).trans hClock
    · simp [slot?] at hMem
      omega
  case slots_le =>
    intro each held' hMem
    rcases List.mem_append.mp hMem with hMem | hMem
    · exact (h.slots_le each held' hMem).trans (h.lastSlot_le.trans hClock)
    · cases List.mem_singleton.mp hMem
      exact Int.le_refl slot
  case last => exact .inl ⟨held, by simp⟩
  case future =>
    intro each hEach
    rw [Series.slots_record (by unfold POINTS; omega), if_neg (by omega)]
    unfold Series.heldThrough
    rw [if_neg (by omega)]
    have hLe := h.lastSlot_le
    exact h.future each (by omega)
  case window =>
    intro each reading hWindow hEach
    rw [Series.slots_record hWindow]
    split
    · rename_i hSlot
      subst hSlot
      exact h.slots_payload hClock
    · rename_i hSlot
      rw [reads_append (by simpa [eq_comm] using hSlot) (carried_append_payload h.ordered hEach)]
      exact h.heldThrough hClock hWindow (by omega)
  case carried =>
    intro each reading hEach
    rw [carried_append_payload_of_lt h.ordered hEach, Series.live_record,
      Series.slots_record (by unfold POINTS; omega), if_pos rfl]
    cases held with
    | none => simp
    | some value => simp

/-- The readings of a report. -/
theorem Held.reported (h : Held samples series lastSlot clock) {last slot : Int} {reading : ρ}
    (hLast : clock ≤ last) (hWindow : last - POINTS < slot) :
    (series.prune lastSlot last).reported lastSlot slot = some reading ↔
      Reads samples slot reading := by
  unfold Series.reported
  rw [Series.slots_prune hWindow]
  by_cases hSlot : lastSlot < slot
  · rw [h.reads_of_lt hSlot, h.future slot hSlot, Option.none_or]
    by_cases hLive : series.live = true
    · simp [Series.prune, hLive, hSlot]
    · simp [Series.prune, hLive]
  · have hNot : ((series.prune lastSlot last).live && decide (lastSlot < slot)) = false := by
      simp [hSlot]
    rw [hNot, ← h.window slot reading (by omega) (by omega)]
    simp

/-- A series is kept by a report where a slot of its window has a reading. -/
theorem Held.listed (h : Held samples series lastSlot clock) {last : Int} (hLast : clock ≤ last) :
    (∃ slot reading, (series.prune lastSlot last).slots slot = some reading) ↔
      ∃ slot reading, last - POINTS < slot ∧ slot ≤ last ∧ Reads samples slot reading := by
  have hClock := h.lastSlot_le
  constructor
  · rintro ⟨slot, reading, hSome⟩
    have hSlot : ¬ lastSlot < slot := by
      intro hLate
      simp [Series.prune, h.future slot hLate] at hSome
    by_cases hWindow : last - POINTS < slot
    · rw [Series.slots_prune hWindow] at hSome
      exact ⟨slot, reading, hWindow, by omega,
        (h.window slot reading (by omega) (by omega)).mp hSome⟩
    · -- only the last reading of a live series is kept from before the window
      have hBefore : slot ≤ last - POINTS := by omega
      obtain ⟨⟨hLive, rfl⟩, hReading⟩ :
          (series.live = true ∧ slot = lastSlot) ∧ series.slots slot = some reading := by
        simpa [Series.prune, hBefore] using hSome
      refine ⟨last, reading, by unfold POINTS; omega, Int.le_refl last, ?_⟩
      rw [h.reads_of_lt (by unfold POINTS at hWindow; omega)]
      exact ⟨hLive, hReading⟩
  · rintro ⟨slot, reading, hWindow, -, hReads⟩
    have hReported := (h.reported hLast hWindow).mpr hReads
    unfold Series.reported at hReported
    rcases Option.or_eq_some_iff.mp hReported with hSome | ⟨-, hLive⟩
    · exact ⟨slot, reading, hSome⟩
    · split at hLive
      · exact ⟨lastSlot, reading, hLive⟩
      · cases hLive

theorem Held.mono (h : Held samples series lastSlot clock) {later : Int} (hLater : clock ≤ later) :
    Held samples series lastSlot later where
  ordered := h.ordered
  lastSlot_le := h.lastSlot_le.trans hLater
  clock_le := by
    intro slot hMem
    exact (h.clock_le slot hMem).trans hLater
  slots_le := h.slots_le
  last := h.last
  future := h.future
  window := by
    intro slot reading hWindow hSlot
    exact h.window slot reading (by omega) hSlot
  carried := h.carried

end steps

end Stim.UsageHistory
