import Stim.Cli.DeviceAdmission

/-!
# What a step of the admission can do

`Step` says once what the actions change and under which conditions.  From it follow
the invariants that the caps and the queue share: who holds the lock, whose markers and
tickets there are, and what they name.
-/

namespace Stim.Cli

open World

variable {caps : Caps} {w w' : World}

namespace Phase

/-- The run holds the admission lock. -/
def underLock : Phase → Bool
  | locked | rounded _ | counted _ _ | admitted => true
  | looping | wanting | booting | ended => false

/-- The run holds a boot marker. -/
def holdsMarker : Phase → Bool
  | admitted | booting => true
  | _ => false

/-- The queue the run has read in its transaction. -/
def queue : Phase → Option (List Ticket)
  | rounded waiters => some waiters
  | counted waiters _ => some waiters
  | _ => none

end Phase

theorem Phase.of_queue {phase : Phase} {waiters : List Ticket} (h : phase.queue = some waiters) :
    phase.underLock = true ∧ phase.holdsMarker = false := by
  cases phase <;> simp_all [Phase.queue, Phase.underLock, Phase.holdsMarker]

/-! ## Fields after an update -/

section Fields

variable (w : World) (r : Nat) (run : Run)

@[simp, grind =] theorem runs_set (r' : Nat) :
    (w.set r run).runs r' = if r' = r then some run else w.runs r' := by
  simp [World.set, Function.update_apply]

@[simp, grind =] theorem lock_set : (w.set r run).lock = w.lock := rfl

@[simp, grind =] theorem markers_set : (w.set r run).markers = w.markers := rfl

@[simp, grind =] theorem tickets_set : (w.set r run).tickets = w.tickets := rfl

@[simp, grind =] theorem live_set : (w.set r run).live = w.live := rfl

@[simp, grind =] theorem transactions_set : (w.set r run).transactions = w.transactions := rfl

@[simp, grind =] theorem runs_release (r' : Nat) : (w.release r).runs r' = w.runs r' := rfl

@[simp, grind =] theorem live_release : (w.release r).live = w.live := rfl

@[simp, grind =] theorem tickets_release : (w.release r).tickets = w.tickets := rfl

@[simp, grind =] theorem lock_release : (w.release r).lock = w.lock := rfl

@[simp, grind =] theorem transactions_release :
    (w.release r).transactions = w.transactions := rfl

@[simp, grind =] theorem mem_markers_release (m : Marker) :
    m ∈ (w.release r).markers ↔ m ∈ w.markers ∧ ¬ (m.run = r ∧ m.stale = true) := by
  simp [World.release, imp_iff_not_or]

theorem mem_rekeyed {markers : List Marker} {r : Nat} {device : DeviceKey} {m : Marker} :
    m ∈ rekeyed markers r device ↔ ∃ old ∈ markers, (old.run ≠ r ∧ m = old) ∨
      (old.run = r ∧ (m = { old with stale := true } ∨
        old.stale = false ∧ m = { old with device })) := by
  simp only [rekeyed, List.mem_append, List.mem_map, List.mem_filter]
  grind

end Fields

/-! ## Steps -/

/-- What the actions do. -/
inductive Step (caps : Caps) (w : World) : World → Prop where
  | start {r platform name} (noWait : Bool) (hRun : w.runs r = none)
      (hName : ∀ u, name = DeviceName.uncreated u → u = r) :
      Step caps w (w.set r ⟨⟨platform, name⟩, noWait, none, .looping⟩)
  | pause : Step caps w w
  | want {r run} (hRun : w.runs r = some run) (hPhase : run.phase = .looping) :
      Step caps w (w.set r { run with phase := .wanting })
  | acquire {r run} (hRun : w.runs r = some run) (hPhase : run.phase = .wanting)
      (hLock : w.lock = none) :
      Step caps w ({ w with lock := some r, transactions := w.transactions + 1 }.set r
        { run with phase := .locked })
  | round {r run listing} (hRun : w.runs r = some run) (hPhase : run.phase = .locked)
      (hListing : listing.Perm w.tickets) :
      Step caps w (w.set r { run with phase := .rounded (liveWaiters listing) })
  | read {r run waiters result} (hRun : w.runs r = some run)
      (hPhase : run.phase = .rounded waiters) (hTrue : w.Truthful result) :
      Step caps w (w.set r { run with phase := .counted waiters result })
  | again {r run waiters} (hRun : w.runs r = some run) (hPhase : run.phase.queue = some waiters) :
      Step caps w ({ w with lock := none }.set r { run with phase := .looping })
  | ticket {r run waiters} (env : Env) (hRun : w.runs r = some run)
      (hPhase : run.phase.queue = some waiters) (hNone : run.ticket = none)
      (hFresh : ∀ t ∈ w.tickets, t.claimId ≠ env.claimId) {ticket : Ticket}
      (hTicket : ticket = ⟨env.claimId, env.startedAt, nextSequence waiters, run.device, r,
        w.transactions⟩) :
      Step caps w ({ w with tickets := w.tickets ++ [ticket], lock := none }.set r
        { run with ticket := some ticket, phase := .looping })
  | mark {r run waiters inventory} (memory : Option Memory) (hRun : w.runs r = some run)
      (hPhase : run.phase = .counted waiters (.ok inventory))
      (hDecide : decideBoot caps run.device (ahead waiters run.ticket) memory
        (.ok inventory) = none) :
      Step caps w ({ w with markers := w.markers ++
        [(⟨r, run.device, !alreadyUp run.device inventory, false⟩ : Marker)] }.set r
          { run with phase := .admitted })
  | admitRun {r run} (hRun : w.runs r = some run) (hPhase : run.phase = .admitted) :
      Step caps w ({ w with tickets := w.tickets.filter fun t => t.run ≠ r, lock := none }.set r
        { run with ticket := none, phase := .booting })
  | boot {r run key} (hRun : w.runs r = some run) (hPhase : run.phase = .booting)
      (hName : run.device.name = .created key) :
      Step caps w { w with live := insert run.device w.live }
  | rekey {r run u} (key : String) (hRun : w.runs r = some run) (hPhase : run.phase = .booting)
      (hName : run.device.name = .uncreated u) {device : DeviceKey}
      (hDevice : device = ⟨run.device.platform, .created key⟩) :
      Step caps w ({ w with markers := rekeyed w.markers r device }.set r { run with device })
  | release (r : Nat) : Step caps w (w.release r)
  | leave {r run} (hRun : w.runs r = some run) : Step caps w (w.leave r run)
  | stop (device : DeviceKey) : Step caps w { w with live := w.live.erase device }

/-- `wait` ends the run, or lets it take a ticket and go round again. -/
theorem step_of_wait {r : Nat} {run : Run} {waiters : List Ticket} {env : Env}
    (hRun : w.runs r = some run) (hPhase : run.phase.queue = some waiters)
    (h : w.wait r run waiters env = some w') : Step caps w w' := by
  unfold World.wait at h
  split at h
  · cases h
    exact .leave hRun
  · split at h
    · cases h
      exact .again hRun hPhase
    · rename_i hNone
      split at h
      · cases h
      · rename_i hFresh
        cases h
        refine .ticket env hRun hPhase hNone ?_ rfl
        intro t ht hEq
        exact hFresh (List.any_eq_true.mpr ⟨t, ht, by simp [hEq]⟩)

theorem step_of_reuse {r : Nat} {run : Run} {listing : List Ticket} {env : Env}
    {read : Option InventoryRead} (hRun : w.runs r = some run)
    (h : w.reuse caps r run listing env read = some w') : Step caps w w' := by
  unfold World.reuse at h
  split at h
  · rename_i hPhase _
    cases h
    exact .want hRun hPhase
  · rename_i hPhase _
    split at h
    · cases h
      exact .want hRun hPhase
    · split at h
      · cases h
        exact .leave hRun
      · cases h
        exact .pause
  · cases h

theorem step_of_decide {r : Nat} {run : Run} {env : Env} (hRun : w.runs r = some run)
    (h : w.decide caps r run env = some w') : Step caps w w' := by
  unfold World.decide at h
  split at h
  · rename_i waiters result hPhase
    split at h
    · exact step_of_wait hRun (by rw [hPhase]; rfl) h
    · rename_i hDecide
      obtain ⟨inventory, rfl, -⟩ := decideBoot_eq_none hDecide
      cases h
      exact .mark env.memory hRun hPhase hDecide
  · cases h

/-- Every action is one of the steps. -/
theorem step_sound {a : Action} (h : step caps w a = some w') : Step caps w w' := by
  cases a with
  | start r platform key noWait =>
      simp only [step, World.begin] at h
      split at h
      · cases h
      · rename_i hRun
        cases h
        refine .start noWait hRun ?_
        intro u hu
        cases key with
        | none => exact (DeviceName.uncreated.inj hu).symm
        | some key => cases hu
  | reuse r listing env read =>
      obtain ⟨run, hRun, h⟩ := Option.bind_eq_some_iff.mp h
      exact step_of_reuse hRun h
  | acquire r =>
      obtain ⟨run, hRun, h⟩ := Option.bind_eq_some_iff.mp h
      unfold World.acquire at h
      split at h
      · rename_i hPhase hLock
        cases h
        exact .acquire hRun hPhase hLock
      · cases h
  | round r listing =>
      obtain ⟨run, hRun, h⟩ := Option.bind_eq_some_iff.mp h
      unfold World.round at h
      split at h
      · rename_i hPhase
        split at h
        · rename_i hListing
          cases h
          exact .round hRun hPhase hListing
        · cases h
      · cases h
  | shared r env read =>
      obtain ⟨run, hRun, h⟩ := Option.bind_eq_some_iff.mp h
      unfold World.shared at h
      split at h
      · rename_i waiters hPhase
        split at h
        · exact step_of_wait hRun (by rw [hPhase]; rfl) h
        · cases h
          exact .pause
      · cases h
  | read r result =>
      obtain ⟨run, hRun, h⟩ := Option.bind_eq_some_iff.mp h
      unfold World.read at h
      split at h
      · rename_i waiters hPhase
        split at h
        · rename_i hTrue
          cases h
          exact .read hRun hPhase hTrue
        · cases h
      · cases h
  | decide r env =>
      obtain ⟨run, hRun, h⟩ := Option.bind_eq_some_iff.mp h
      exact step_of_decide hRun h
  | admitRun r =>
      obtain ⟨run, hRun, h⟩ := Option.bind_eq_some_iff.mp h
      unfold World.admitRun at h
      split at h
      · rename_i hPhase
        cases h
        exact .admitRun hRun hPhase
      · cases h
  | boot r =>
      obtain ⟨run, hRun, h⟩ := Option.bind_eq_some_iff.mp h
      unfold World.boot at h
      split at h
      · rename_i hPhase hName
        cases h
        exact .boot hRun hPhase hName
      · cases h
  | rekey r key =>
      obtain ⟨run, hRun, h⟩ := Option.bind_eq_some_iff.mp h
      unfold World.rekey at h
      split at h
      · rename_i hPhase hName
        cases h
        exact .rekey key hRun hPhase hName rfl
      · cases h
  | release r =>
      cases h
      exact .release r
  | leave r =>
      obtain ⟨run, hRun, rfl⟩ := Option.map_eq_some_iff.mp h
      exact .leave hRun
  | stop device =>
      cases h
      exact .stop device

/-! ## Shared invariants -/

attribute [grind ext] DeviceKey

/-- Only the holder of the lock is inside a transaction. -/
def Locked (w : World) : Prop :=
  ∀ r run, w.runs r = some run → run.phase.underLock = true → w.lock = some r

theorem locked_step (h : Locked w) (hStep : Step caps w w') : Locked w' := by
  intro r' run' hRun' hLock'
  cases hStep with
  | again hRun hPhase => grind [Phase.underLock, Locked, → Phase.of_queue]
  | ticket env hRun hPhase => grind [Phase.underLock, Locked, → Phase.of_queue]
  | _ => grind [Phase.underLock, Locked, World.leave]

/-- A run counts under an uncreated key only if that is its own. -/
def Named (w : World) : Prop :=
  ∀ r run u, w.runs r = some run → run.device.name = .uncreated u → u = r

theorem named_step (h : Named w) (hStep : Step caps w w') : Named w' := by
  intro r' run' u hRun' hName'
  cases hStep with
  | _ => grind [Named, World.leave]

/-- A marker belongs to a run that boots.  It names the run's device, or it is the one of
the uncreated device that `rekey` replaces. -/
def Owned (w : World) : Prop :=
  ∀ m ∈ w.markers, ∃ run, w.runs m.run = some run ∧ run.phase.holdsMarker = true ∧
    m.device = if m.stale then ⟨run.device.platform, .uncreated m.run⟩ else run.device

theorem owned_step (hNamed : Named w) (h : Owned w) (hStep : Step caps w w') : Owned w' := by
  intro m hm
  cases hStep with
  | rekey key hRun hPhase hName hDevice =>
      obtain ⟨old, hOld, ⟨hOther, rfl⟩ | ⟨rfl, rfl | ⟨hCurrent, rfl⟩⟩⟩ := mem_rekeyed.mp hm
      · grind [Owned]
      · -- the replaced marker had the run's own uncreated key
        grind [Owned, Named]
      · grind [Owned]
  | _ => grind [Owned, Phase.holdsMarker, → Phase.of_queue, World.leave]

/-- A run that boots has a marker of its own. -/
def Marked (w : World) : Prop :=
  ∀ r run, w.runs r = some run → run.phase.holdsMarker = true →
    ∃ m ∈ w.markers, m.run = r ∧ m.stale = false

theorem marked_step (h : Marked w) (hStep : Step caps w w') : Marked w' := by
  intro r' run' hRun' hHolds'
  cases hStep with
  | @rekey r run u key hRun hPhase hName device hDevice =>
      by_cases hSame : r' = r
      · obtain ⟨m, hm, hOwner, hCurrent⟩ := h r run hRun (by rw [hPhase]; rfl)
        exact ⟨{ m with device }, mem_rekeyed.mpr ⟨m, hm, .inr ⟨hOwner, .inr ⟨hCurrent, rfl⟩⟩⟩,
          hOwner.trans hSame.symm, hCurrent⟩
      · grind [Marked, mem_rekeyed]
  | @mark r run waiters inventory memory hRun hPhase hDecide =>
      by_cases hSame : r' = r
      · exact ⟨_, List.mem_append_right _ (List.mem_singleton_self _), hSame.symm, rfl⟩
      · obtain ⟨m, hm, hOwner⟩ := h r' run' (by simpa [hSame] using hRun') hHolds'
        exact ⟨m, List.mem_append_left _ hm, hOwner⟩
  | _ => grind [Marked, Phase.holdsMarker, → Phase.of_queue, World.leave]

/-- A live device has been created. -/
def LiveCreated (w : World) : Prop := ∀ d ∈ w.live, ∀ u, d.name ≠ .uncreated u

theorem liveCreated_step (h : LiveCreated w) (hStep : Step caps w w') : LiveCreated w' := by
  intro d hd u
  cases hStep with
  | _ => grind [LiveCreated, World.leave]

/-- The tickets are those the runs hold. -/
def Ticketed (w : World) : Prop :=
  (∀ t ∈ w.tickets, ∃ run, w.runs t.run = some run ∧ run.ticket = some t) ∧
    ∀ r run t, w.runs r = some run → run.ticket = some t → t ∈ w.tickets ∧ t.run = r

theorem ticketed_step (h : Ticketed w) (hStep : Step caps w w') : Ticketed w' := by
  cases hStep with
  | _ => grind [Ticketed, World.leave]

/-- Who holds what. -/
structure Sound (w : World) : Prop where
  locked : Locked w
  named : Named w
  owned : Owned w
  marked : Marked w
  liveCreated : LiveCreated w
  ticketed : Ticketed w

theorem sound_initial : Sound World.initial where
  locked := by simp [Locked, World.initial]
  named := by simp [Named, World.initial]
  owned := by simp [Owned, World.initial]
  marked := by simp [Marked, World.initial]
  liveCreated := by simp [LiveCreated, World.initial]
  ticketed := by simp [Ticketed, World.initial]

theorem sound_step (h : Sound w) (hStep : Step caps w w') : Sound w' :=
  ⟨locked_step h.locked hStep, named_step h.named hStep, owned_step h.named h.owned hStep,
    marked_step h.marked hStep, liveCreated_step h.liveCreated hStep,
    ticketed_step h.ticketed hStep⟩

/-- Two runs are never both inside a transaction. -/
theorem Sound.alone {r r' : Nat} {run run' : Run} (h : Sound w) (hRun : w.runs r = some run)
    (hRun' : w.runs r' = some run') (hLock : run.phase.underLock = true)
    (hLock' : run'.phase.underLock = true) : r = r' :=
  Option.some.inj ((h.locked r run hRun hLock).symm.trans (h.locked r' run' hRun' hLock'))

end Stim.Cli
