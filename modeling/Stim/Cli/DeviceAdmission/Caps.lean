import Stim.Cli.DeviceAdmission.Invariant

/-!
# Device caps across concurrent boots

The owned devices that are live or being booted stay within the caps.  Between the
reading of an inventory and the marker that admits a run, only that run can add a
device: what others do in between keeps or lowers the counts (`occupied_step`).
-/

namespace Stim.Cli

open World

/-! ## Counting devices -/

section Counting

variable {X Y : Finset DeviceKey} {d e : DeviceKey} {p : CappedPlatform}

theorem platformCount_mono (h : X ⊆ Y) : platformCount X p ≤ platformCount Y p :=
  Finset.card_le_card (Finset.filter_subset_filter _ h)

theorem insert_erase_self (d : DeviceKey) (X : Finset DeviceKey) :
    insert d (X.erase d) = insert d X := by
  ext x
  by_cases hx : x = d <;> simp [hx]

theorem platformCount_insert (X : Finset DeviceKey) (d : DeviceKey) (p : CappedPlatform) :
    platformCount (insert d X) p =
      platformCount (X.erase d) p + if d.platform = p then 1 else 0 := by
  unfold platformCount
  rw [← insert_erase_self, Finset.filter_insert]
  split
  · rw [Finset.card_insert_of_notMem (by simp)]
  · rfl

theorem card_eq_platformCount (X : Finset DeviceKey) :
    X.card = platformCount X .ios + platformCount X .android := by
  unfold platformCount
  rw [← Finset.card_union_of_disjoint]
  · congr 1
    ext d
    cases hPlatform : d.platform <;> simp [hPlatform]
  · rw [Finset.disjoint_filter]
    intro d _ hIos hAndroid
    rw [hIos] at hAndroid
    cases hAndroid

/-- One device took another's place: no count rises. -/
theorem platformCount_replace (hSub : Y ⊆ insert e (X.erase d)) (hMem : d ∈ X)
    (hPlatform : e.platform = d.platform) : platformCount Y p ≤ platformCount X p := by
  calc platformCount Y p
      ≤ platformCount (insert e (X.erase d)) p := platformCount_mono hSub
    _ ≤ platformCount (X.erase d) p + if e.platform = p then 1 else 0 := by
        rw [platformCount_insert]
        exact Nat.add_le_add_right (platformCount_mono (Finset.erase_subset _ _)) _
    _ = platformCount (insert d X) p := by rw [platformCount_insert, hPlatform]
    _ = platformCount X p := by rw [Finset.insert_eq_self.mpr hMem]

/-- The same when a third device is left out. -/
theorem platformCount_replace_erase (hSub : Y ⊆ insert e (X.erase d)) (hMem : d ∈ X)
    (hPlatform : e.platform = d.platform) {own : DeviceKey} (hOwn : own ≠ d) :
    platformCount (Y.erase own) p ≤ platformCount (X.erase own) p := by
  refine platformCount_replace ?_ (Finset.mem_erase.mpr ⟨hOwn.symm, hMem⟩) hPlatform
  intro x hx
  obtain ⟨hNe, hx⟩ := Finset.mem_erase.mp hx
  rcases Finset.mem_insert.mp (hSub hx) with rfl | hx
  · exact Finset.mem_insert_self _ _
  · obtain ⟨hOld, hx⟩ := Finset.mem_erase.mp hx
    exact Finset.mem_insert_of_mem (Finset.mem_erase.mpr ⟨hOld, Finset.mem_erase.mpr ⟨hNe, hx⟩⟩)

/-- The caps hold of a set of devices. -/
def Within (caps : Caps) (X : Finset DeviceKey) : Prop :=
  (0 < caps.max → X.card ≤ caps.max) ∧
    ∀ p, 0 < caps.platformMax p → platformCount X p ≤ caps.platformMax p

theorem card_le_of_counts (hCounts : ∀ p, platformCount X p ≤ platformCount Y p) :
    X.card ≤ Y.card := by
  rw [card_eq_platformCount, card_eq_platformCount]
  exact Nat.add_le_add (hCounts .ios) (hCounts .android)

theorem Within.of_counts {caps : Caps} (h : Within caps Y)
    (hCounts : ∀ p, platformCount X p ≤ platformCount Y p) : Within caps X := by
  refine ⟨fun hMax => ?_, fun p hp => Nat.le_trans (hCounts p) (h.2 p hp)⟩
  exact Nat.le_trans (card_le_of_counts hCounts) (h.1 hMax)

/-- A device that fits the limits of a smaller set can be added. -/
theorem within_insert {caps : Caps} (hX : Within caps X)
    (hLimits : ∀ limit ∈ deviceLimits (Y.erase d) d.platform caps, limit.count < limit.max)
    (hCounts : ∀ p, platformCount (X.erase d) p ≤ platformCount (Y.erase d) p) :
    Within caps (insert d X) := by
  constructor
  · intro hMax
    have hLt : (Y.erase d).card < caps.max :=
      hLimits _ (List.mem_append_right _ (by rw [if_pos hMax]; exact List.mem_singleton_self _))
    have hCard : (insert d X).card ≤ (X.erase d).card + 1 := by
      rw [← insert_erase_self]
      exact Finset.card_insert_le _ _
    have := card_le_of_counts hCounts
    omega
  · intro p hp
    rw [platformCount_insert]
    split
    · rename_i hPlatform
      subst hPlatform
      have hLt : platformCount (Y.erase d) d.platform < caps.platformMax d.platform :=
        hLimits _ (List.mem_append_left _ (by rw [if_pos hp]; exact List.mem_singleton_self _))
      have := hCounts d.platform
      omega
    · exact Nat.le_trans (platformCount_mono (Finset.erase_subset _ _)) (hX.2 p hp)

end Counting

/-! ## Devices in use -/

/-- The devices being booted. -/
def World.bootingDevices (w : World) : Finset DeviceKey :=
  ((w.markers.filter fun m => !m.stale).map Marker.device).toFinset

/-- The devices that are live or being booted. -/
def World.occupied (w : World) : Finset DeviceKey := w.live ∪ w.bootingDevices

/-- The devices whose boot was admitted through the checks. -/
def World.checkedDevices (w : World) : Finset DeviceKey :=
  ((w.markers.filter fun m => !m.stale && m.checked).map Marker.device).toFinset

variable {caps : Caps} {w w' : World} {d : DeviceKey}

theorem mem_bootingDevices :
    d ∈ w.bootingDevices ↔ ∃ m ∈ w.markers, m.stale = false ∧ m.device = d := by
  simp [World.bootingDevices, and_assoc]

theorem mem_occupied :
    d ∈ w.occupied ↔ d ∈ w.live ∨ ∃ m ∈ w.markers, m.stale = false ∧ m.device = d := by
  rw [World.occupied, Finset.mem_union, mem_bootingDevices]

theorem mem_checkedDevices : d ∈ w.checkedDevices ↔
    ∃ m ∈ w.markers, m.stale = false ∧ m.checked = true ∧ m.device = d := by
  simp [World.checkedDevices, and_assoc]

/-- A set of devices grew by none, or run `r` replaced its uncreated device by the one it
created. -/
inductive Change (w : World) (X Y : Finset DeviceKey) : Prop where
  | shrink (h : Y ⊆ X)
  | replace {r run d} (hRun : w.runs r = some run) (hPhase : run.phase = .booting)
      (hMem : (⟨d.platform, .uncreated r⟩ : DeviceKey) ∈ X)
      (h : Y ⊆ insert d (X.erase ⟨d.platform, .uncreated r⟩))

/-- The one step that adds a device: a boot is admitted. -/
def Marks (caps : Caps) (w w' : World) : Prop :=
  ∃ r run waiters inventory memory, w.runs r = some run ∧
    run.phase = .counted waiters (.ok inventory) ∧
    decideBoot caps run.device (ahead waiters run.ticket) memory (.ok inventory) = none ∧
    w' = { w with markers := w.markers ++
      [(⟨r, run.device, !alreadyUp run.device inventory, false⟩ : Marker)] }.set r
        { run with phase := .admitted }

section Change

variable {X Y : Finset DeviceKey} {p : CappedPlatform}

theorem Change.counts (h : Change w X Y) : platformCount Y p ≤ platformCount X p := by
  cases h with
  | shrink h => exact platformCount_mono h
  | replace hRun hPhase hMem h => exact platformCount_replace h hMem rfl

/-- Nor does a count rise that leaves out the device of a run inside its transaction. -/
theorem Change.counts_erase (h : Change w X Y) (hSound : Sound w) {r : Nat} {run : Run}
    (hRun : w.runs r = some run) (hLock : run.phase.underLock = true) :
    platformCount (Y.erase run.device) p ≤ platformCount (X.erase run.device) p := by
  cases h with
  | shrink h => exact platformCount_mono (Finset.erase_subset_erase _ h)
  | @replace r' run' d hRun' hPhase' hMem h =>
      refine platformCount_replace_erase h hMem rfl ?_
      intro hOwn
      have hSame : r' = r := hSound.named r run r' hRun (by rw [hOwn])
      subst hSame
      rw [hRun] at hRun'
      cases hRun'
      rw [hPhase'] at hLock
      cases hLock

end Change

variable {run : Run} {r : Nat}

/-- The device of a run that boots is being booted. -/
theorem Sound.mem_bootingDevices (h : Sound w) (hRun : w.runs r = some run)
    (hHolds : run.phase.holdsMarker = true) : run.device ∈ w.bootingDevices := by
  obtain ⟨m, hm, rfl, hCurrent⟩ := h.marked r run hRun hHolds
  obtain ⟨run', hRun', -, hDevice⟩ := h.owned m hm
  rw [hRun] at hRun'
  cases hRun'
  rw [hCurrent] at hDevice
  exact Cli.mem_bootingDevices.mpr ⟨m, hm, hCurrent, hDevice⟩

/-- A current marker never has another run's uncreated key. -/
theorem Sound.device_ne {m : Marker} {p : CappedPlatform} (h : Sound w) (hm : m ∈ w.markers)
    (hCurrent : m.stale = false) (hOther : m.run ≠ r) : m.device ≠ ⟨p, .uncreated r⟩ := by
  obtain ⟨run, hRun, -, hDevice⟩ := h.owned m hm
  rw [hCurrent] at hDevice
  intro hEq
  have hName : run.device.name = .uncreated r := by
    rw [← show m.device = run.device from hDevice, hEq]
  exact hOther (h.named _ run r hRun hName).symm

/-- A step that admits nobody changes the devices in use as `Change` says. -/
theorem occupied_step (hSound : Sound w) (hStep : Step caps w w') :
    Change w w.occupied w'.occupied ∨ Marks caps w w' := by
  cases hStep with
  | mark memory hRun hPhase hDecide =>
      exact .inr ⟨_, _, _, _, memory, hRun, hPhase, hDecide, rfl⟩
  | @rekey r run u key hRun hPhase hName device hDevice =>
      obtain rfl := hSound.named r run u hRun hName
      have hOld : run.device = ⟨device.platform, .uncreated u⟩ := by
        rw [hDevice, ← hName]
      have hMem := hSound.mem_bootingDevices hRun (by rw [hPhase]; rfl)
      refine .inl (.replace hRun hPhase (hOld ▸ Finset.mem_union_right _ hMem) ?_)
      intro x hx
      rcases mem_occupied.mp hx with hLive | ⟨m, hm, hCurrent, rfl⟩
      · have hNe : x ≠ ⟨device.platform, .uncreated u⟩ := by
          rintro rfl
          exact hSound.liveCreated _ hLive u rfl
        exact Finset.mem_insert_of_mem (Finset.mem_erase.mpr
          ⟨hNe, mem_occupied.mpr (.inl hLive)⟩)
      · obtain ⟨old, hOldMem, ⟨hOther, rfl⟩ | ⟨-, rfl | ⟨-, rfl⟩⟩⟩ := mem_rekeyed.mp hm
        · exact Finset.mem_insert_of_mem (Finset.mem_erase.mpr
            ⟨hSound.device_ne hOldMem hCurrent hOther, mem_occupied.mpr
              (.inr ⟨_, hOldMem, hCurrent, rfl⟩)⟩)
        · cases hCurrent
        · exact Finset.mem_insert_self _ _
  | @boot r run key hRun hPhase hName =>
      have hMem := hSound.mem_bootingDevices hRun (by rw [hPhase]; rfl)
      refine .inl (.shrink ?_)
      intro x hx
      rcases mem_occupied.mp hx with hLive | hBooting
      · rcases Finset.mem_insert.mp hLive with rfl | hLive
        · exact Finset.mem_union_right _ hMem
        · exact mem_occupied.mpr (.inl hLive)
      · exact mem_occupied.mpr (.inr hBooting)
  | _ =>
      refine .inl (.shrink fun x hx => ?_)
      rw [mem_occupied] at hx ⊢
      grind [World.leave]

/-- Nor does it change the checked boots otherwise. -/
theorem checked_step (hSound : Sound w) (hStep : Step caps w w') :
    Change w w.checkedDevices w'.checkedDevices ∨ Marks caps w w' := by
  cases hStep with
  | mark memory hRun hPhase hDecide =>
      exact .inr ⟨_, _, _, _, memory, hRun, hPhase, hDecide, rfl⟩
  | @rekey r run u key hRun hPhase hName device hDevice =>
      obtain rfl := hSound.named r run u hRun hName
      have hOld : run.device = ⟨device.platform, .uncreated u⟩ := by
        rw [hDevice, ← hName]
      by_cases hChecked : run.device ∈ w.checkedDevices
      · refine .inl (.replace hRun hPhase (hOld ▸ hChecked) ?_)
        intro x hx
        obtain ⟨m, hm, hCurrent, hPassed, rfl⟩ := mem_checkedDevices.mp hx
        obtain ⟨old, hOldMem, ⟨hOther, rfl⟩ | ⟨-, rfl | ⟨-, rfl⟩⟩⟩ := mem_rekeyed.mp hm
        · exact Finset.mem_insert_of_mem (Finset.mem_erase.mpr
            ⟨hSound.device_ne hOldMem hCurrent hOther, mem_checkedDevices.mpr
              ⟨_, hOldMem, hCurrent, hPassed, rfl⟩⟩)
        · cases hCurrent
        · exact Finset.mem_insert_self _ _
      · refine .inl (.shrink ?_)
        intro x hx
        obtain ⟨m, hm, hCurrent, hPassed, rfl⟩ := mem_checkedDevices.mp hx
        obtain ⟨old, hOldMem, ⟨hOther, rfl⟩ | ⟨rfl, rfl | ⟨hStale, rfl⟩⟩⟩ := mem_rekeyed.mp hm
        · exact mem_checkedDevices.mpr ⟨_, hOldMem, hCurrent, hPassed, rfl⟩
        · cases hCurrent
        · -- the replaced marker was not a checked one
          obtain ⟨run', hRun', -, hSame⟩ := hSound.owned old hOldMem
          rw [hRun] at hRun'
          cases hRun'
          rw [hStale] at hSame
          exact absurd (mem_checkedDevices.mpr ⟨old, hOldMem, hStale, hPassed, hSame⟩) hChecked
  | _ =>
      refine .inl (.shrink fun x hx => ?_)
      rw [mem_checkedDevices] at hx ⊢
      grind [World.leave]

/-! ## The caps hold -/

/-- What stands between the reading of an inventory and the admission: no count has risen
since, and when the inventory has the run's device, so had the devices in use. -/
structure Counted (caps : Caps) (w : World) (own : DeviceKey) (inventory : DeviceInventory) :
    Prop where
  counts : ∀ p, platformCount (w.occupied.erase own) p ≤
    platformCount ((inventoryKeys inventory).erase own) p
  known : own ∈ inventoryKeys inventory → Within caps (insert own w.occupied)
  inFlight : (w.checkedDevices.erase own).card ≤
    (inventory.booting.filter fun entry => entry ≠ own).length

structure Capped (caps : Caps) (w : World) : Prop where
  within : Within caps w.occupied
  inFlight : w.checkedDevices.card ≤ BOOTS_IN_FLIGHT
  counted : ∀ r run waiters inventory, w.runs r = some run →
    run.phase = .counted waiters (.ok inventory) → Counted caps w run.device inventory

theorem capped_initial (caps : Caps) : Capped caps World.initial where
  within := ⟨fun _ => Nat.zero_le _, fun _ _ => Nat.zero_le _⟩
  inFlight := Nat.zero_le _
  counted := by simp [World.initial]

variable {inventory : DeviceInventory}

/-- A true inventory has every device in use. -/
theorem occupied_subset (h : w.Truthful (.ok inventory)) :
    w.occupied ⊆ inventoryKeys inventory := by
  intro x hx
  rw [inventoryKeys_eq, Finset.mem_union, List.mem_toFinset, h.1, h.2.mem_iff]
  rcases mem_occupied.mp hx with hLive | ⟨m, hm, -, rfl⟩
  · exact .inl hLive
  · exact .inr (List.mem_map_of_mem hm)

/-- A run's own device is in a true inventory only when it is in use: a replaced marker
has another run's key. -/
theorem mem_occupied_of_truthful (hSound : Sound w) (hRun : w.runs r = some run)
    (hHolds : run.phase.holdsMarker = false) (h : w.Truthful (.ok inventory))
    (hMem : run.device ∈ inventoryKeys inventory) : run.device ∈ w.occupied := by
  rw [inventoryKeys_eq, Finset.mem_union, List.mem_toFinset, h.1, h.2.mem_iff,
    List.mem_map] at hMem
  rcases hMem with hLive | ⟨m, hm, hDevice⟩
  · exact mem_occupied.mpr (.inl hLive)
  · cases hStale : m.stale with
    | false => exact mem_occupied.mpr (.inr ⟨m, hm, hStale, hDevice⟩)
    | true =>
        obtain ⟨run', hRun', hHolds', hKey⟩ := hSound.owned m hm
        rw [hStale] at hKey
        have hName : run.device.name = .uncreated m.run := by rw [← hDevice, hKey]; rfl
        obtain rfl := hSound.named r run m.run hRun hName
        rw [hRun] at hRun'
        cases hRun'
        rw [hHolds] at hHolds'
        cases hHolds'

theorem counted_of_truthful (hSound : Sound w) (h : Capped caps w) (hRun : w.runs r = some run)
    (hHolds : run.phase.holdsMarker = false) (hTrue : w.Truthful (.ok inventory)) :
    Counted caps w run.device inventory where
  counts _ := platformCount_mono (Finset.erase_subset_erase _ (occupied_subset hTrue))
  known hMem := by
    rw [Finset.insert_eq_self.mpr (mem_occupied_of_truthful hSound hRun hHolds hTrue hMem)]
    exact h.within
  inFlight := by
    refine Nat.le_trans (Finset.card_le_card (t := (inventory.booting.filter
      fun entry => entry ≠ run.device).toFinset) ?_) (List.toFinset_card_le _)
    intro x hx
    obtain ⟨hNe, hx⟩ := Finset.mem_erase.mp hx
    obtain ⟨m, hm, -, -, rfl⟩ := mem_checkedDevices.mp hx
    rw [List.mem_toFinset, List.mem_filter, hTrue.2.mem_iff]
    exact ⟨List.mem_map_of_mem hm, by simpa using hNe⟩

/-- Nothing another run does raises what a run has counted. -/
theorem Counted.change (hSound : Sound w) (hRun : w.runs r = some run)
    (hLock : run.phase.underLock = true) (h : Counted caps w run.device inventory)
    (hOccupied : Change w w.occupied w'.occupied)
    (hChecked : Change w w.checkedDevices w'.checkedDevices) :
    Counted caps w' run.device inventory where
  counts p := Nat.le_trans (hOccupied.counts_erase hSound hRun hLock) (h.counts p)
  known hMem := by
    refine (h.known hMem).of_counts fun p => ?_
    rw [platformCount_insert, platformCount_insert]
    exact Nat.add_le_add_right (hOccupied.counts_erase hSound hRun hLock) _
  inFlight := Nat.le_trans
    (card_le_of_counts fun _ => hChecked.counts_erase hSound hRun hLock) h.inFlight

/-- Whoever has counted has just read the inventory, or had it before. -/
theorem counted_origin {waiters : List Ticket} (hStep : Step caps w w')
    (hRun : w'.runs r = some run) (hPhase : run.phase = .counted waiters (.ok inventory)) :
    w.runs r = some run ∨ ∃ before, w.runs r = some before ∧ before.device = run.device ∧
      before.phase = .rounded waiters ∧ w.Truthful (.ok inventory) ∧
      w'.live = w.live ∧ w'.markers = w.markers := by
  cases hStep with
  | _ => grind [World.leave]

theorem occupied_mark {m : Marker} (hCurrent : m.stale = false) :
    ({ w with markers := w.markers ++ [m] }.set r run).occupied = insert m.device w.occupied := by
  ext x
  simp only [mem_occupied, Finset.mem_insert, live_set, markers_set, List.mem_append,
    List.mem_singleton]
  grind

theorem checked_mark {m : Marker} (hCurrent : m.stale = false) :
    ({ w with markers := w.markers ++ [m] }.set r run).checkedDevices =
      if m.checked then insert m.device w.checkedDevices else w.checkedDevices := by
  ext x
  split
  · simp only [mem_checkedDevices, Finset.mem_insert, markers_set, List.mem_append,
      List.mem_singleton]
    grind
  · simp only [mem_checkedDevices, markers_set, List.mem_append, List.mem_singleton]
    grind

theorem mem_inventoryKeys_of_alreadyUp {own : DeviceKey} (h : alreadyUp own inventory = true) :
    own ∈ inventoryKeys inventory := by
  simp only [alreadyUp, Bool.or_eq_true, Bool.and_eq_true, decide_eq_true_eq,
    List.contains_iff_mem] at h
  rcases h with ⟨-, hKeys⟩ | hBooting
  · exact hKeys
  · rw [inventoryKeys_eq]
    exact Finset.mem_union_right _ (List.mem_toFinset.mpr hBooting)

/-- An admission keeps the caps. -/
theorem capped_marks (hSound : Sound w) (h : Capped caps w) (hMarks : Marks caps w w') :
    Capped caps w' := by
  obtain ⟨r, run, waiters, inventory, memory, hRun, hPhase, hDecide, rfl⟩ := hMarks
  have hCounted := h.counted r run waiters inventory hRun hPhase
  obtain ⟨_, ⟨⟩, hPassed⟩ := decideBoot_eq_none hDecide
  refine ⟨?_, ?_, ?_⟩
  · rw [occupied_mark rfl]
    cases hUp : alreadyUp run.device inventory with
    | true => exact hCounted.known (mem_inventoryKeys_of_alreadyUp hUp)
    | false => exact within_insert h.within (hPassed hUp).1 hCounted.counts
  · rw [checked_mark rfl]
    cases hUp : alreadyUp run.device inventory with
    | true => exact h.inFlight
    | false =>
        have hLength := (hPassed hUp).2.1
        have hCard : (insert run.device w.checkedDevices).card ≤
            (w.checkedDevices.erase run.device).card + 1 := by
          rw [← insert_erase_self]
          exact Finset.card_insert_le _ _
        exact Nat.le_trans hCard (Nat.lt_of_le_of_lt hCounted.inFlight hLength)
  · -- no other run is inside a transaction
    intro r' run' waiters' inventory' hRun' hPhase'
    rw [runs_set] at hRun'
    split at hRun'
    · cases hRun'
      cases hPhase'
    · rename_i hOther
      refine absurd (hSound.alone hRun' hRun ?_ ?_) hOther
      · rw [hPhase']
        rfl
      · rw [hPhase]
        rfl

theorem capped_step (hSound : Sound w) (h : Capped caps w) (hStep : Step caps w w') :
    Capped caps w' := by
  rcases occupied_step hSound hStep with hOccupied | hMarks
  · rcases checked_step hSound hStep with hChecked | hMarks
    · refine ⟨h.within.of_counts fun _ => hOccupied.counts,
        Nat.le_trans (card_le_of_counts fun _ => hChecked.counts) h.inFlight, ?_⟩
      intro r run waiters inventory hRun hPhase
      have hLock : run.phase.underLock = true := by rw [hPhase]; rfl
      rcases counted_origin hStep hRun hPhase with hBefore | hRead
      · exact (h.counted r run waiters inventory hBefore hPhase).change hSound hBefore hLock
          hOccupied hChecked
      · obtain ⟨before, hBefore, hDevice, hRounded, hTrue, hLive, hMarkers⟩ := hRead
        have hCounted := counted_of_truthful hSound h hBefore (by rw [hRounded]; rfl) hTrue
        have hSame : w'.occupied = w.occupied := by
          simp only [World.occupied, World.bootingDevices, hLive, hMarkers]
        have hSame' : w'.checkedDevices = w.checkedDevices := by
          simp only [World.checkedDevices, hMarkers]
        rw [← hDevice]
        exact ⟨hSame ▸ hCounted.counts, hSame ▸ hCounted.known, hSame' ▸ hCounted.inFlight⟩
    · exact capped_marks hSound h hMarks
  · exact capped_marks hSound h hMarks

/-- In every state of every run the owned devices that are live or being booted are within
the caps, and at most two devices have a boot that was admitted through the checks. -/
theorem caps_hold {actions : List Action} (hRun : Machine.run (step caps) .initial actions =
    some w) :
    (0 < caps.max → w.occupied.card ≤ caps.max) ∧
    (∀ p, 0 < caps.platformMax p → platformCount w.occupied p ≤ caps.platformMax p) ∧
    w.checkedDevices.card ≤ 2 := by
  have hCapped : Sound w ∧ Capped caps w := by
    refine Machine.invariant_run (P := fun w => Sound w ∧ Capped caps w) ?_
      ⟨sound_initial, capped_initial caps⟩ hRun
    intro w a w' h hStep
    have hStep' := step_sound hStep
    exact ⟨sound_step h.1 hStep', capped_step h.1 h.2 hStep'⟩
  exact ⟨hCapped.2.within.1, hCapped.2.within.2, hCapped.2.inFlight⟩

/-! ## A device that stops while its run boots it -/

section Runs

def calm : Env := ⟨"", "", none, false⟩

/-- An inventory of simulators. -/
def simulators (booted : List String) (booting : List DeviceKey) : DeviceInventory where
  sims := booted.map fun udid => ⟨udid, "stim-" ++ udid, "Booted"⟩
  adb := ⟨[], []⟩
  projects := []
  booting := booting

def simulator (udid : String) : DeviceKey := ⟨.ios, .created udid⟩

/-- A run for a simulator finds nobody waiting and is admitted on the given inventory. -/
def admission (r : Nat) (udid : String) (inventory : DeviceInventory) : List Action :=
  [.start r .ios (some udid) false, .reuse r [] calm none, .acquire r, .round r [],
    .read r (.ok inventory), .decide r calm, .admitRun r]

/-- A simulator is booted and its run ends. -/
def oneBoot : List Action := admission 0 "D" (simulators [] []) ++ [.boot 0, .leave 0]

theorem caps_hold_oneBoot :
    ∃ w, Machine.run (step ⟨1, fun _ => 1, false⟩) .initial oneBoot = some w ∧
      w.occupied = {simulator "D"} ∧ w.occupied.card ≤ 1 := by
  have hSome : (Machine.run (step ⟨1, fun _ => 1, false⟩) .initial oneBoot).map World.occupied =
      some {simulator "D"} := by decide +kernel
  obtain ⟨w, hRun, hOccupied⟩ := Option.map_eq_some_iff.mp hSome
  exact ⟨w, hRun, hOccupied, (caps_hold hRun).1 Nat.one_pos⟩

/-- Two simulators are being booted and a third that is live is admitted as it is.  It
stops, a fourth run is admitted because the third is booting it, and the third ends. -/
def stoppedWhileBooting : List Action :=
  oneBoot ++ admission 1 "A" (simulators ["D"] []) ++
    admission 2 "B" (simulators ["D"] [simulator "A"]) ++
    admission 3 "D" (simulators ["D"] [simulator "A", simulator "B"]) ++
    [.stop (simulator "D")] ++
    admission 4 "D" (simulators [] [simulator "A", simulator "B", simulator "D"]) ++ [.leave 3]

/-- Three devices are being booted of which none is live, nor was when its run was
admitted. -/
theorem not_two_stoppedWhileBooting :
    ∃ w, Machine.run (step ⟨0, fun _ => 0, false⟩) .initial stoppedWhileBooting = some w ∧
      ¬ (w.bootingDevices \ w.live).card ≤ 2 := by
  have hSome : (Machine.run (step ⟨0, fun _ => 0, false⟩) .initial stoppedWhileBooting).map
      (fun w => (w.bootingDevices \ w.live).card) = some 3 := by decide +kernel
  obtain ⟨w, hRun, hCard⟩ := Option.map_eq_some_iff.mp hSome
  exact ⟨w, hRun, by rw [hCard]; decide⟩

end Runs

end Stim.Cli
