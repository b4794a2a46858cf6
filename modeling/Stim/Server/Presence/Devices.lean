import Stim.Server.Presence.Room

/-!
# Devices are rooms

A hub with its device objects, timers and the functions that end subscriptions is the room of the
device that it holds now: what is set or open refers to that object, and one that it forgot held
nothing.
-/

namespace Stim.Presence

variable {τ γ : Type}

namespace Hub

/-- The device of the key. -/
def now (hub : Hub τ γ) : Device τ γ :=
  match hub.devices with
  | none => Device.empty
  | some ref => hub.heap ref

def room (hub : Hub τ γ) : Room τ γ where
  listeners := hub.now.listeners
  agent := hub.now.agent
  people := hub.now.people
  moves := hub.now.moves
  subscribed := hub.subscriptions.length
  delivered := hub.delivered

/-- What a timer that is set refers to. -/
def Tied (devices : Option Ref) (device : Device τ γ) (timer : Timer) : Callback τ γ → Prop
  | .leave ref participant =>
      devices = some ref ∧ device.leave = some timer ∧ device.agent = some participant
  | .flush ref => devices = some ref ∧ device.flush = some timer

/-- Timers that are set are those of the device, and so are the subscriptions that are open. -/
structure Bound (ended : List Subscription) (hub : Hub τ γ) : Prop where
  nodup : (hub.timers.map Prod.fst).Nodup
  lt : ∀ pending ∈ hub.timers, pending.1 < hub.timersSet
  tied : ∀ pending ∈ hub.timers, Tied hub.devices hub.now pending.1 pending.2
  listening : ∀ listener ref, hub.subscriptions[listener]? = some ref → listener ∉ ended →
    hub.devices = some ref ∧ listener ∈ hub.now.listeners

variable {hub : Hub τ γ} {ref : Ref} {ended : List Subscription}

theorem bound_init : Bound [] (Hub.init : Hub τ γ) where
  nodup := List.nodup_nil
  lt := nofun
  tied := nofun
  listening := nofun

/-! ## The parts of calls -/

theorem now_of_devices (hRef : hub.devices = some ref) : hub.now = hub.heap ref := by
  rw [now, hRef]

theorem now_update (hRef : hub.devices = some ref) (change : Device τ γ → Device τ γ) :
    (hub.update ref change).now = change hub.now := by
  rw [now_of_devices hRef]
  unfold now update
  rw [hRef]
  exact Function.update_self ref _ _

theorem device_fst : hub.device.2.devices = some hub.device.1 := by
  unfold device
  split
  · assumption
  · rfl

theorem now_device : hub.device.2.now = hub.now := by
  unfold device
  split
  · rfl
  · rename_i hNone
    unfold now
    rw [hNone]
    exact Function.update_self _ _ _

theorem room_device : hub.device.2.room = hub.room := by
  have hRest : hub.device.2.subscriptions = hub.subscriptions ∧
      hub.device.2.delivered = hub.delivered := by
    unfold device
    split
    · exact ⟨rfl, rfl⟩
    · exact ⟨rfl, rfl⟩
  unfold room
  rw [now_device, hRest.1, hRest.2]

theorem Bound.device (h : hub.Bound ended) : hub.device.2.Bound ended := by
  unfold Hub.device
  split
  · exact h
  · rename_i hNone
    -- with no device no timer is set and no subscription is open
    have hTimers : ∀ pending, pending ∉ hub.timers := by
      intro pending hMem
      have hTied := h.tied pending hMem
      rw [hNone] at hTied
      cases hCallback : pending.2 with
      | leave ref participant =>
          rw [hCallback] at hTied
          cases hTied.1
      | flush ref =>
          rw [hCallback] at hTied
          cases hTied.1
    refine ⟨h.nodup, h.lt, fun pending hMem => absurd hMem (hTimers pending), ?_⟩
    intro listener ref hListener hOpen
    have hDevice := (h.listening listener ref hListener hOpen).1
    rw [hNone] at hDevice
    cases hDevice

theorem Bound.emit (h : hub.Bound ended) (participants : List (PresenceParticipant τ γ)) :
    (hub.emit ref participants).Bound ended :=
  ⟨h.nodup, h.lt, h.tied, h.listening⟩

theorem mem_clearTimeout {timer : Option Timer} {pending : Timer × Callback τ γ} :
    pending ∈ (hub.clearTimeout timer).timers ↔
      pending ∈ hub.timers ∧ ∀ cleared, timer = some cleared → pending.1 ≠ cleared := by
  unfold clearTimeout
  cases timer with
  | none => simp
  | some cleared => simp

theorem clearTimeout_fields (timer : Option Timer) :
    (hub.clearTimeout timer).devices = hub.devices ∧ (hub.clearTimeout timer).heap = hub.heap ∧
      (hub.clearTimeout timer).timersSet = hub.timersSet ∧
      (hub.clearTimeout timer).subscriptions = hub.subscriptions ∧
      (hub.clearTimeout timer).delivered = hub.delivered := by
  unfold clearTimeout
  cases timer with
  | none => exact ⟨rfl, rfl, rfl, rfl, rfl⟩
  | some cleared => exact ⟨rfl, rfl, rfl, rfl, rfl⟩

theorem now_clearTimeout (timer : Option Timer) : (hub.clearTimeout timer).now = hub.now := by
  obtain ⟨hDevices, hHeap, -⟩ := hub.clearTimeout_fields timer
  unfold now
  rw [hDevices, hHeap]

theorem room_clearTimeout (timer : Option Timer) : (hub.clearTimeout timer).room = hub.room := by
  obtain ⟨-, -, -, hSubscriptions, hDelivered⟩ := hub.clearTimeout_fields timer
  unfold room
  rw [now_clearTimeout, hSubscriptions, hDelivered]

theorem Bound.clearTimeout (h : hub.Bound ended) (timer : Option Timer) :
    (hub.clearTimeout timer).Bound ended := by
  obtain ⟨hDevices, -, hSet, hSubscriptions, -⟩ := hub.clearTimeout_fields timer
  constructor
  case nodup =>
    cases timer with
    | none => exact h.nodup
    | some cleared => exact h.nodup.sublist (List.filter_sublist.map Prod.fst)
  case lt =>
    intro pending hMem
    rw [hSet]
    exact h.lt pending (mem_clearTimeout.mp hMem).1
  case tied =>
    intro pending hMem
    rw [hDevices, now_clearTimeout]
    exact h.tied pending (mem_clearTimeout.mp hMem).1
  case listening =>
    rw [hDevices, hSubscriptions, now_clearTimeout]
    exact h.listening

/-- A timer is cleared and the device changed so that the timers left are still its own. -/
theorem Bound.clear (h : hub.Bound ended) (hRef : hub.devices = some ref) (timer : Option Timer)
    {change : Device τ γ → Device τ γ}
    (hKept : ∀ left callback, (∀ cleared, timer = some cleared → left ≠ cleared) →
      Tied hub.devices hub.now left callback → Tied hub.devices (change hub.now) left callback)
    {ended' : List Subscription}
    (hListeners : ∀ listener, listener ∉ ended' → listener ∉ ended ∧
      (listener ∈ hub.now.listeners → listener ∈ (change hub.now).listeners)) :
    ((hub.clearTimeout timer).update ref change).Bound ended' := by
  have hCleared := h.clearTimeout timer
  have hRef' : (hub.clearTimeout timer).devices = some ref :=
    (hub.clearTimeout_fields timer).1.trans hRef
  refine ⟨hCleared.nodup, hCleared.lt, ?_, ?_⟩
  · intro pending hMem
    obtain ⟨hOld, hLeft⟩ := mem_clearTimeout.mp hMem
    have hTied := hKept pending.1 pending.2 hLeft (h.tied pending hOld)
    rw [hRef] at hTied
    rw [now_update hRef', now_clearTimeout]
    exact hRef' ▸ hTied
  · intro listener other hListener hOpen
    obtain ⟨hOpen, hKeeps⟩ := hListeners listener hOpen
    have hListening := hCleared.listening listener other hListener hOpen
    rw [now_clearTimeout] at hListening
    rw [now_update hRef', now_clearTimeout]
    exact ⟨hListening.1, hKeeps hListening.2⟩

/-- A change of the device that leaves its timers, agent and listeners. -/
theorem Bound.update (h : hub.Bound ended) (hRef : hub.devices = some ref)
    {change : Device τ γ → Device τ γ} (hLeave : (change hub.now).leave = hub.now.leave)
    (hAgent : (change hub.now).agent = hub.now.agent)
    (hFlush : (change hub.now).flush = hub.now.flush)
    (hListeners : (change hub.now).listeners = hub.now.listeners) :
    (hub.update ref change).Bound ended := by
  refine h.clear hRef none ?_ fun listener hOpen => ⟨hOpen, by rw [hListeners]; exact id⟩
  intro timer callback _ hTied
  cases callback with
  | leave other participant => exact ⟨hTied.1, hLeave.trans hTied.2.1, hAgent.trans hTied.2.2⟩
  | flush other => exact ⟨hTied.1, hFlush.trans hTied.2⟩

/-- With its `leave` timer cleared a device may change its agent and that timer. -/
theorem Bound.clearLeave (h : hub.Bound ended) (hRef : hub.devices = some ref)
    {change : Device τ γ → Device τ γ} (hFlush : (change hub.now).flush = hub.now.flush)
    (hListeners : (change hub.now).listeners = hub.now.listeners) :
    ((hub.clearTimeout hub.now.leave).update ref change).Bound ended := by
  refine h.clear hRef _ ?_ fun listener hOpen => ⟨hOpen, by rw [hListeners]; exact id⟩
  intro timer callback hLeft hTied
  cases callback with
  | leave other participant => exact absurd rfl (hLeft timer hTied.2.1)
  | flush other => exact ⟨hTied.1, hFlush.trans hTied.2⟩

/-- With its `flush` timer cleared a device may change its moves and that timer. -/
theorem Bound.clearFlush (h : hub.Bound ended) (hRef : hub.devices = some ref)
    {change : Device τ γ → Device τ γ} (hLeave : (change hub.now).leave = hub.now.leave)
    (hAgent : (change hub.now).agent = hub.now.agent)
    (hListeners : (change hub.now).listeners = hub.now.listeners) :
    ((hub.clearTimeout hub.now.flush).update ref change).Bound ended := by
  refine h.clear hRef _ ?_ fun listener hOpen => ⟨hOpen, by rw [hListeners]; exact id⟩
  intro timer callback hLeft hTied
  cases callback with
  | leave other participant => exact ⟨hTied.1, hLeave.trans hTied.2.1, hAgent.trans hTied.2.2⟩
  | flush other => exact absurd rfl (hLeft timer hTied.2)

/-- A timer is set, and the device changed so that it and the others are its own. -/
theorem Bound.set (h : hub.Bound ended) (hRef : hub.devices = some ref) {callback : Callback τ γ}
    {change : Device τ γ → Device τ γ}
    (hTied : Tied (some ref) (change hub.now) hub.timersSet callback)
    (hKept : ∀ timer callback, Tied hub.devices hub.now timer callback →
      Tied hub.devices (change hub.now) timer callback)
    (hListeners : (change hub.now).listeners = hub.now.listeners) :
    ((hub.setTimeout callback).2.update ref change).Bound ended := by
  have hRef' : (hub.setTimeout callback).2.devices = some ref := hRef
  have hNow : (hub.setTimeout callback).2.now = hub.now := rfl
  constructor
  case nodup =>
    show ((hub.timers ++ [(hub.timersSet, callback)]).map Prod.fst).Nodup
    rw [List.map_append]
    refine List.nodup_append.mpr ⟨h.nodup, List.nodup_singleton _, ?_⟩
    intro timer hOld new hNew
    obtain ⟨pending, hPending, rfl⟩ := List.mem_map.mp hOld
    have hLt := h.lt pending hPending
    rw [List.mem_singleton.mp hNew]
    exact Nat.ne_of_lt hLt
  case lt =>
    intro pending hMem
    rcases List.mem_append.mp hMem with hOld | hNew
    · exact Nat.lt_succ_of_lt (h.lt pending hOld)
    · rw [List.mem_singleton.mp hNew]
      exact Nat.lt_succ_self _
  case tied =>
    intro pending hMem
    rw [now_update hRef', hNow]
    rcases List.mem_append.mp hMem with hOld | hNew
    · exact hKept pending.1 pending.2 (h.tied pending hOld)
    · rw [List.mem_singleton.mp hNew]
      exact hRef' ▸ hTied
  case listening =>
    intro listener other hListener hOpen
    rw [now_update hRef', hNow, hListeners]
    exact h.listening listener other hListener hOpen

theorem entries_of_get_none {κ ν : Type} [DecidableEq κ] {map : OrderedMap κ ν}
    (h : ∀ key, map.get key = none) : map = OrderedMap.empty := by
  refine OrderedMap.ext ?_
  cases hEntries : map.entries with
  | nil => rfl
  | cons entry rest =>
      have hGet : map.get entry.1 = some entry.2 :=
        OrderedMap.get_eq_some_iff.mpr (hEntries ▸ List.mem_cons_self)
      rw [h entry.1] at hGet
      cases hGet

/-! ## Flushing and forgetting -/

/-- What flushing makes of the device. -/
def flushed (device : Device τ γ) : Device τ γ :=
  { device with flush := none, moves := OrderedMap.empty }

theorem room_update (hRef : hub.devices = some ref) (change : Device τ γ → Device τ γ) :
    (hub.update ref change).room =
      { hub.room with
        listeners := (change hub.now).listeners
        agent := (change hub.now).agent
        people := (change hub.now).people
        moves := (change hub.now).moves } := by
  unfold room
  rw [now_update hRef]
  rfl

theorem room_emit (hRef : hub.devices = some ref)
    (participants : List (PresenceParticipant τ γ)) :
    (hub.emit ref participants).room = hub.room.emit participants := by
  unfold Hub.emit
  rw [← now_of_devices hRef]
  rfl

/-- Both outcomes of a flush: its timer is cleared, and the moves that wait are sent. -/
theorem flushMoves_eq (hRef : hub.devices = some ref) :
    hub.flushMoves ref =
      let cleared := (hub.clearTimeout hub.now.flush).update ref fun device =>
        { device with flush := none }
      if hub.now.moves.entries.isEmpty then cleared
      else (cleared.update ref fun device => { device with moves := OrderedMap.empty }).emit ref
        hub.now.moves.values := by
  have hHeap := (hub.clearTimeout_fields hub.now.flush).2.1
  unfold flushMoves update
  rw [now_of_devices hRef] at hHeap ⊢
  simp only [Function.update_self, hHeap]

theorem flushMoves_spec (h : hub.Bound ended) (hRef : hub.devices = some ref) :
    (hub.flushMoves ref).devices = some ref ∧ (hub.flushMoves ref).now = flushed hub.now ∧
      (hub.flushMoves ref).room = hub.room.flushMoves ∧ (hub.flushMoves ref).Bound ended := by
  have hRef' := (hub.clearTimeout_fields hub.now.flush).1.trans hRef
  have hBound : ((hub.clearTimeout hub.now.flush).update ref fun device =>
      { device with flush := none }).Bound ended := h.clearFlush hRef rfl rfl rfl
  have hNow := now_update hRef' fun device => { device with flush := none }
  have hRoom := room_update hRef' fun device => { device with flush := none }
  rw [now_clearTimeout] at hNow hRoom
  rw [room_clearTimeout] at hRoom
  rw [flushMoves_eq hRef]
  dsimp only
  generalize hCleared : (hub.clearTimeout hub.now.flush).update ref (fun device =>
    { device with flush := none }) = cleared at hBound hNow hRoom
  have hDevices : cleared.devices = some ref := hCleared ▸ hRef'
  unfold Room.flushMoves
  have hMoves : hub.room.moves = hub.now.moves := rfl
  rw [hMoves]
  split
  · rename_i hEmpty
    -- no move waits
    have hNone : hub.now.moves = OrderedMap.empty :=
      OrderedMap.ext (List.isEmpty_iff.mp hEmpty)
    refine ⟨hDevices, ?_, hRoom, hBound⟩
    rw [hNow, flushed, ← hNone]
  · have hSent := @room_emit _ _ (cleared.update ref fun device =>
      { device with moves := OrderedMap.empty }) ref hDevices hub.now.moves.values
    refine ⟨hDevices, ?_, ?_, (hBound.update hDevices rfl rfl rfl rfl).emit _⟩
    · have hUpdated := now_update hDevices fun device => { device with moves := OrderedMap.empty }
      rw [hNow] at hUpdated
      exact hUpdated
    · rw [hSent, room_update hDevices, hNow, hRoom]
      rfl

/-- A device that is forgotten held nothing, so its room is as it was. -/
theorem forget_spec (h : hub.Bound ended) (hRef : hub.devices = some ref)
    (hRoom : hub.room.Sound) :
    (hub.forget ref).room = hub.room ∧ (hub.forget ref).Bound ended := by
  unfold forget
  rw [← now_of_devices hRef]
  dsimp only
  split
  · exact ⟨rfl, h⟩
  · rename_i hEmpty
    simp only [Bool.or_eq_true, Bool.not_eq_true', not_or, Bool.not_eq_false,
      List.isEmpty_iff, Bool.not_eq_true, Option.isSome_eq_false_iff, Option.isNone_iff_eq_none]
      at hEmpty
    obtain ⟨⟨hListeners, hAgent⟩, hPeople⟩ := hEmpty
    have hPeople : hub.now.people = OrderedMap.empty := OrderedMap.ext hPeople
    have hMoves : hub.now.moves = OrderedMap.empty := by
      refine entries_of_get_none fun id => ?_
      cases hMove : hub.now.moves.get id with
      | none => rfl
      | some move =>
          have hPerson := (hRoom.moves id move hMove).2.2
          have hNobody : hub.room.people = OrderedMap.empty := hPeople
          rw [hNobody] at hPerson
          cases hPerson
    obtain ⟨-, -, -, hSubscriptions, hDelivered⟩ := hub.clearTimeout_fields hub.now.flush
    -- its timers are gone: the agent's left with it, and the other is cleared
    have hTimers : ∀ pending, pending ∉ (hub.clearTimeout hub.now.flush).timers := by
      intro pending hMem
      obtain ⟨hOld, hLeft⟩ := mem_clearTimeout.mp hMem
      have hTied := h.tied pending hOld
      cases hCallback : pending.2 with
      | leave other participant =>
          rw [hCallback] at hTied
          have hSome := hTied.2.2
          rw [hAgent] at hSome
          cases hSome
      | flush other =>
          rw [hCallback] at hTied
          exact hLeft pending.1 hTied.2 rfl
    constructor
    · unfold room
      rw [hSubscriptions, hDelivered, hListeners, hAgent, hPeople, hMoves]
      rfl
    · have hCleared := h.clearTimeout hub.now.flush
      refine ⟨hCleared.nodup, hCleared.lt, fun pending hMem => absurd hMem (hTimers pending), ?_⟩
      intro listener other hListener hOpen
      rw [hSubscriptions] at hListener
      have hListening := (h.listening listener other hListener hOpen).2
      rw [hListeners] at hListening
      cases hListening

/-! ## Calls -/

/-- What an act is for the room. -/
def change (hub : Hub τ γ) : Act τ γ → Change τ γ
  | .subscribe => .subscribe
  | .unsubscribe listener => .unsubscribe listener
  | .agent command gesture => .agent command gesture
  | .join who => .join who
  | .touch who touch => .touch who touch
  | .leave id => .leave id
  | .fires timer =>
      match hub.timers.find? fun pending => decide (pending.1 = timer) with
      | none => .nothing
      | some (_, .leave _ _) => .agentLeaves
      | some (_, .flush _) => .flush

theorem subscribe_spec (h : hub.Bound ended) :
    hub.subscribe.room = hub.room.step .subscribe ∧ hub.subscribe.Bound ended := by
  have hRef := hub.device_fst
  have hDevice := h.device
  have hRoom := hub.room_device
  unfold subscribe
  dsimp only
  generalize hub.device = made at hRef hDevice hRoom
  obtain ⟨ref, hub'⟩ := made
  dsimp only at hRef hDevice hRoom ⊢
  have hNow := now_update hRef fun device =>
    { device with listeners := device.listeners ++ [hub'.subscriptions.length] }
  have hUpdated : (hub'.update ref fun device =>
      { device with listeners := device.listeners ++ [hub'.subscriptions.length] }).Bound ended :=
    hDevice.clear hRef none (fun timer callback _ hTied => by cases callback <;> exact hTied)
      fun listener hOpen => ⟨hOpen, List.mem_append_left _⟩
  rw [← hRoom]
  generalize hEq : hub'.update ref (fun device =>
    { device with listeners := device.listeners ++ [hub'.subscriptions.length] }) = updated
    at hNow hUpdated
  have hDevices : updated.devices = some ref := hEq ▸ hRef
  have hSubscriptions : updated.subscriptions = hub'.subscriptions := hEq ▸ rfl
  have hDelivered : updated.delivered = hub'.delivered := hEq ▸ rfl
  constructor
  · unfold room
    show Room.mk updated.now.listeners updated.now.agent updated.now.people updated.now.moves
      (updated.subscriptions ++ [ref]).length (updated.delivered ++ [_]) = _
    rw [← now_of_devices hDevices, hNow, hSubscriptions, hDelivered, List.length_append]
    rfl
  · refine ⟨hUpdated.nodup, hUpdated.lt, hUpdated.tied, ?_⟩
    intro listener other hListener hOpen
    rcases Nat.lt_trichotomy listener updated.subscriptions.length with hLt | hEqual | hGt
    · rw [List.getElem?_append_left hLt] at hListener
      exact hUpdated.listening listener other hListener hOpen
    · -- the subscription that was made now
      rw [hEqual, List.getElem?_append_right (Nat.le_refl _), Nat.sub_self] at hListener
      cases hListener
      refine ⟨hDevices, ?_⟩
      show listener ∈ updated.now.listeners
      rw [hNow, hEqual, hSubscriptions]
      exact List.mem_append_right _ (List.mem_singleton.mpr rfl)
    · rw [List.getElem?_eq_none (by rw [List.length_append]; exact hGt)] at hListener
      cases hListener

theorem unsubscribe_spec (h : hub.Bound ended) (hRoom : hub.room.Sound) {listener : Subscription}
    (hOpen : listener ∉ ended) :
    (hub.unsubscribe listener).room = hub.room.step (.unsubscribe listener) ∧
      (hub.unsubscribe listener).Bound (listener :: ended) := by
  have hStep : (hub.room.step (.unsubscribe listener)).Sound := hRoom.step nofun
  unfold unsubscribe
  cases hSubscription : hub.subscriptions[listener]? with
  | none =>
      -- there is no such subscription, so no such listener
      have hAll : ∀ each ∈ hub.room.listeners, decide (each ≠ listener) = true := by
        intro each hMem
        have hLt := hRoom.listeners_lt each hMem
        have hLe := List.getElem?_eq_none_iff.mp hSubscription
        exact decide_eq_true (Nat.ne_of_lt (Nat.lt_of_lt_of_le hLt hLe))
      constructor
      · dsimp only [Room.step]
        rw [List.filter_eq_self.mpr hAll]
      · refine ⟨h.nodup, h.lt, h.tied, fun each ref hEach hStill => ?_⟩
        exact h.listening each ref hEach fun hMem => hStill (List.mem_cons_of_mem _ hMem)
  | some ref =>
      obtain ⟨hRef, -⟩ := h.listening listener ref hSubscription hOpen
      have hRoom' := room_update hRef fun device =>
        { device with listeners := device.listeners.filter fun each => each ≠ listener }
      have hBound : (hub.update ref fun device =>
          { device with
            listeners := device.listeners.filter fun each => each ≠ listener }).Bound
          (listener :: ended) := by
        refine h.clear hRef none
          (fun timer callback _ hTied => by cases callback <;> exact hTied) ?_
        intro each hStill
        rw [List.mem_cons, not_or] at hStill
        exact ⟨hStill.2, fun hMem => List.mem_filter.mpr ⟨hMem, decide_eq_true hStill.1⟩⟩
      have hSound := hStep
      rw [← show _ = hub.room.step (.unsubscribe listener) from hRoom'] at hSound
      obtain ⟨hForget, hBound'⟩ := forget_spec hBound hRef hSound
      exact ⟨hForget.trans hRoom', hBound'⟩

theorem agent_spec (h : hub.Bound ended) (command : JsString) (gesture : Option γ) :
    (hub.agent command gesture).room = hub.room.step (.agent command gesture) ∧
      (hub.agent command gesture).Bound ended := by
  have hRef := hub.device_fst
  have hDevice := h.device
  have hRoom := hub.room_device
  unfold agent
  dsimp only
  generalize hub.device = made at hRef hDevice hRoom
  obtain ⟨ref, hub'⟩ := made
  dsimp only at hRef hDevice hRoom ⊢
  rw [← hRoom, ← now_of_devices hRef]
  have hRef' := (hub'.clearTimeout_fields hub'.now.leave).1.trans hRef
  have hBound : ((hub'.clearTimeout hub'.now.leave).update ref fun device =>
      { device with leave := none, agent := some (agentOf command) }).Bound ended :=
    hDevice.clearLeave hRef rfl rfl
  have hNow := now_update hRef' fun device =>
    { device with leave := none, agent := some (agentOf command) }
  have hUpdated := room_update hRef' fun device =>
    { device with leave := none, agent := some (agentOf command) }
  rw [now_clearTimeout] at hNow hUpdated
  rw [room_clearTimeout] at hUpdated
  generalize hEq : (hub'.clearTimeout hub'.now.leave).update ref (fun device =>
    { device with leave := none, agent := some (agentOf command) }) = updated
    at hBound hNow hUpdated
  have hDevices : updated.devices = some ref := hEq ▸ hRef'
  have hSent := room_emit hDevices [(agentOf command).gesturing gesture]
  have hBoundSent := @Bound.emit _ _ _ ref _ hBound [(agentOf command).gesturing gesture]
  have hNowSent : (updated.emit ref [(agentOf command).gesturing gesture]).now = updated.now := rfl
  constructor
  · have hSet : ((updated.emit ref [(agentOf command).gesturing gesture]).setTimeout
        (.leave ref (agentOf command))).2.devices = some ref := hDevices
    refine (room_update hSet _).trans (hSent.trans ?_)
    rw [hUpdated]
    rfl
  · refine hBoundSent.set hDevices ⟨rfl, rfl, ?_⟩ ?_ rfl
    · rw [hNowSent, hNow]
    · -- the timer of the agent's earlier command was cleared
      intro timer callback hTied
      rw [hNowSent] at hTied ⊢
      cases callback with
      | leave other participant =>
          have hSet := hTied.2.1
          rw [hNow] at hSet
          cases hSet
      | flush other => exact hTied

theorem emit_spec (h : hub.Bound ended) (hRef : hub.devices = some ref)
    (participants : List (PresenceParticipant τ γ)) :
    (hub.emit ref participants).room = hub.room.emit participants ∧
      (hub.emit ref participants).Bound ended :=
  ⟨room_emit hRef participants, h.emit participants⟩

/-- A person is put on the device's roster. -/
theorem enter_spec (h : hub.Bound ended) (who : PresenceParticipant τ γ) :
    ∃ entered, (hub.device.2.update hub.device.1 fun device =>
        { device with people := device.people.set who.id (personOf who) }) = entered ∧
      entered.devices = some hub.device.1 ∧ entered.Bound ended ∧
      entered.room = { hub.room with people := hub.room.people.set who.id (personOf who) } := by
  have hRef := hub.device_fst
  refine ⟨_, rfl, hRef, h.device.update hRef rfl rfl rfl rfl, ?_⟩
  rw [room_update hRef, room_device]
  show _ = { hub.room with people := hub.now.people.set who.id (personOf who) }
  rw [now_device]
  rfl

theorem join_spec (h : hub.Bound ended) (who : PresenceParticipant τ γ) :
    (hub.join who).room = hub.room.step (.join who) ∧ (hub.join who).Bound ended := by
  obtain ⟨entered, hEntered, hRef, hBound, hRoom⟩ := enter_spec h who
  unfold join
  dsimp only
  rw [hEntered]
  obtain ⟨hDevices, -, hFlushed, hBound'⟩ := flushMoves_spec hBound hRef
  obtain ⟨hSent, hBoundSent⟩ := emit_spec hBound' hDevices [personOf who]
  refine ⟨hSent.trans ?_, hBoundSent⟩
  rw [hFlushed, hRoom]
  rfl

theorem flushLater_spec (h : hub.Bound ended) (hRef : hub.devices = some ref) :
    (hub.flushLater ref).room = hub.room ∧ (hub.flushLater ref).Bound ended := by
  unfold flushLater
  rw [← now_of_devices hRef]
  split
  · exact ⟨rfl, h⟩
  · rename_i hNone
    have hSet : (hub.setTimeout (.flush ref)).2.devices = some ref := hRef
    refine ⟨room_update hSet _, h.set hRef ⟨rfl, rfl⟩ ?_ rfl⟩
    intro timer callback hTied
    cases callback with
    | leave other participant => exact hTied
    | flush other =>
        have hSome := hTied.2
        rw [hNone] at hSome
        cases hSome

theorem touch_spec (h : hub.Bound ended) (who : PresenceParticipant τ γ)
    (touch : PresenceTouch τ) :
    (hub.touch who touch).room = hub.room.step (.touch who touch) ∧
      (hub.touch who touch).Bound ended := by
  obtain ⟨entered, hEntered, hRef, hBound, hRoom⟩ := enter_spec h who
  unfold Hub.touch
  dsimp only [Room.step, Room.touch]
  rw [hEntered]
  split
  · have hMoved : (entered.update hub.device.1 fun device =>
        { device with moves := device.moves.set who.id (Room.touching who touch) }).room =
        { entered.room with
          moves := entered.room.moves.set who.id (Room.touching who touch) } :=
      room_update hRef _
    have hBoundMoved : (entered.update hub.device.1 fun device =>
        { device with moves := device.moves.set who.id (Room.touching who touch) }).Bound ended :=
      hBound.update hRef rfl rfl rfl rfl
    obtain ⟨hLater, hBound'⟩ := flushLater_spec hBoundMoved hRef
    refine ⟨hLater.trans ?_, hBound'⟩
    rw [hMoved, hRoom]
  · obtain ⟨hDevices, -, hFlushed, hBound'⟩ := flushMoves_spec hBound hRef
    obtain ⟨hSent, hBoundSent⟩ := emit_spec hBound' hDevices [Room.touching who touch]
    refine ⟨hSent.trans ?_, hBoundSent⟩
    rw [hFlushed, hRoom]

theorem leave_spec (h : hub.Bound ended) (hRoom : hub.room.Sound) (id : JsString) :
    (hub.leave id).room = hub.room.step (.leave id) ∧ (hub.leave id).Bound ended := by
  have hStep : (hub.room.step (.leave id)).Sound := hRoom.step nofun
  dsimp only [Room.step, Room.leave] at hStep ⊢
  unfold leave
  cases hRef : hub.devices with
  | none =>
      have hNobody : hub.room.people.get id = none := by
        unfold room now
        rw [hRef]
        rfl
      rw [hNobody]
      exact ⟨rfl, h⟩
  | some ref =>
      dsimp only
      rw [← now_of_devices hRef]
      have hPeople : hub.room.people = hub.now.people := rfl
      rw [hPeople] at hStep ⊢
      cases hPerson : hub.now.people.get id with
      | none => exact ⟨rfl, h⟩
      | some person =>
          rw [hPerson] at hStep
          dsimp only at hStep ⊢
          obtain ⟨hDevices, -, hFlushed, hBound⟩ := flushMoves_spec h hRef
          have hLeft : ((hub.flushMoves ref).update ref fun device =>
              { device with people := device.people.delete id }).room =
              { (hub.flushMoves ref).room with
                people := (hub.flushMoves ref).room.people.delete id } := room_update hDevices _
          have hBoundLeft : ((hub.flushMoves ref).update ref fun device =>
              { device with people := device.people.delete id }).Bound ended :=
            hBound.update hDevices rfl rfl rfl rfl
          rw [hFlushed, hub.room.flushMoves_fields.2.2.1, hPeople] at hLeft
          obtain ⟨hSent, hBoundSent⟩ := emit_spec hBoundLeft hDevices [person.leaving]
          rw [hLeft] at hSent
          obtain ⟨hForgot, hBoundForgot⟩ := forget_spec hBoundSent hDevices (hSent ▸ hStep)
          exact ⟨hForgot.trans hSent, hBoundForgot⟩

theorem agentLeaves_spec (h : hub.Bound ended) (hRoom : hub.room.Sound) {timer : Timer}
    {participant : PresenceParticipant τ γ}
    (hTied : Tied hub.devices hub.now timer (.leave ref participant)) :
    ((hub.clearTimeout (some timer)).call (.leave ref participant)).room =
        hub.room.step .agentLeaves ∧
      ((hub.clearTimeout (some timer)).call (.leave ref participant)).Bound ended := by
  obtain ⟨hRef, hTimer, hAgent⟩ := hTied
  have hStep : (hub.room.step .agentLeaves).Sound := hRoom.step nofun
  have hAgent' : hub.room.agent = some participant := hAgent
  dsimp only [Room.step, Room.agentLeaves, call] at hStep ⊢
  rw [hAgent'] at hStep ⊢
  dsimp only at hStep ⊢
  have hDevices := (hub.clearTimeout_fields (some timer)).1.trans hRef
  have hGone : ((hub.clearTimeout (some timer)).update ref fun device =>
      { device with leave := none, agent := none }).room =
      { (hub.clearTimeout (some timer)).room with agent := none } := room_update hDevices _
  have hBoundGone : ((hub.clearTimeout (some timer)).update ref fun device =>
      { device with leave := none, agent := none }).Bound ended := by
    rw [← hTimer]
    exact h.clearLeave hRef rfl rfl
  rw [room_clearTimeout] at hGone
  obtain ⟨hSent, hBoundSent⟩ := emit_spec hBoundGone hDevices [participant.leaving]
  rw [hGone] at hSent
  obtain ⟨hForgot, hBoundForgot⟩ := forget_spec hBoundSent hDevices (hSent ▸ hStep)
  exact ⟨hForgot.trans hSent, hBoundForgot⟩

theorem fires_spec (h : hub.Bound ended) (hRoom : hub.room.Sound) (timer : Timer) :
    (hub.fires timer).room = hub.room.step (hub.change (.fires timer)) ∧
      (hub.fires timer).Bound ended := by
  unfold fires change
  dsimp only
  cases hFind : hub.timers.find? fun pending => decide (pending.1 = timer) with
  | none => exact ⟨rfl, h⟩
  | some pending =>
      obtain ⟨fired, callback⟩ := pending
      have hTied := h.tied _ (List.mem_of_find?_eq_some hFind)
      have hTimer : fired = timer := by simpa using List.find?_some hFind
      subst hTimer
      cases callback with
      | leave ref participant => exact agentLeaves_spec h hRoom hTied
      | flush ref =>
          have hDevices := (hub.clearTimeout_fields (some fired)).1.trans hTied.1
          obtain ⟨-, -, hFlushed, hBound⟩ :=
            flushMoves_spec (h.clearTimeout (some fired)) hDevices
          refine ⟨hFlushed.trans ?_, hBound⟩
          rw [room_clearTimeout]
          rfl

end Hub

/-! ## Steps -/

/-- The subscription that an act ends. -/
def Act.ended : Act τ γ → Option Subscription
  | .subscribe => none
  | .unsubscribe listener => some listener
  | .agent _ _ => none
  | .join _ => none
  | .touch _ _ => none
  | .leave _ => none
  | .fires _ => none

/-- The human whom an act brings. -/
def Act.who : Act τ γ → Option (PresenceParticipant τ γ)
  | .subscribe => none
  | .unsubscribe _ => none
  | .agent _ _ => none
  | .join who => some who
  | .touch who _ => some who
  | .leave _ => none
  | .fires _ => none

/-- No subscription is ended again, and no human has the agent's id. -/
structure Proper (acts : List (Act τ γ)) (ended : List Subscription) : Prop where
  ended : (acts.filterMap Act.ended ++ ended).Nodup
  humans : ∀ act ∈ acts, ∀ who, act.who = some who → who.id ≠ AGENT_ID

theorem Proper.cons {act : Act τ γ} {rest : List (Act τ γ)} {ended : List Subscription}
    (h : Proper (act :: rest) ended) :
    (∀ listener, act.ended = some listener → listener ∉ ended) ∧
      (∀ who, act.who = some who → who.id ≠ AGENT_ID) ∧
      Proper rest (act.ended.toList ++ ended) := by
  have hWho : ∀ act ∈ rest, ∀ who, act.who = some who → who.id ≠ AGENT_ID := by
    intro act hMem
    exact h.humans act (List.mem_cons_of_mem _ hMem)
  have hEnded := h.ended
  refine ⟨?_, h.humans act List.mem_cons_self, ?_, hWho⟩
  · intro listener hListener hMem
    rw [List.filterMap_cons_some hListener, List.cons_append, List.nodup_cons] at hEnded
    exact hEnded.1 (List.mem_append_right _ hMem)
  · cases hAct : act.ended with
    | none =>
        rw [List.filterMap_cons_none hAct] at hEnded
        exact hEnded
    | some listener =>
        rw [List.filterMap_cons_some hAct, List.cons_append] at hEnded
        exact List.nodup_middle.mpr hEnded

namespace Hub

structure Sound (ended : List Subscription) (hub : Hub τ γ) : Prop where
  bound : hub.Bound ended
  room : hub.room.Sound

variable {hub : Hub τ γ} {ended : List Subscription}

theorem sound_init : Sound [] (Hub.init : Hub τ γ) := ⟨bound_init, Room.sound_empty⟩

theorem who_change (act : Act τ γ) : (hub.change act).who = act.who := by
  cases act with
  | fires timer =>
      unfold change
      dsimp only
      split
      · rfl
      · rfl
      · rfl
  | _ => rfl

/-- A step of the hub is the step of its room. -/
theorem step_spec (h : hub.Sound ended) {act : Act τ γ}
    (hEnded : ∀ listener, act.ended = some listener → listener ∉ ended)
    (hWho : ∀ who, act.who = some who → who.id ≠ AGENT_ID) :
    (hub.step act).room = hub.room.step (hub.change act) ∧
      (hub.step act).Sound (act.ended.toList ++ ended) := by
  have hStep : (hub.step act).room = hub.room.step (hub.change act) ∧
      (hub.step act).Bound (act.ended.toList ++ ended) := by
    cases act with
    | subscribe => exact subscribe_spec h.bound
    | unsubscribe listener => exact unsubscribe_spec h.bound h.room (hEnded listener rfl)
    | agent command gesture => exact agent_spec h.bound command gesture
    | join who => exact join_spec h.bound who
    | touch who touch => exact touch_spec h.bound who touch
    | leave id => exact leave_spec h.bound h.room id
    | fires timer => exact fires_spec h.bound h.room timer
  refine ⟨hStep.1, hStep.2, ?_⟩
  rw [hStep.1]
  refine h.room.step ?_
  rw [who_change]
  exact hWho

end Hub

end Stim.Presence
