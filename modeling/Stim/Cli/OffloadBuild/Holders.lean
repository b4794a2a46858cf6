import Mathlib.Data.List.Nodup
import Stim.Cli.OffloadBuild

/-!
# Who holds an open connection

An open connection is the choice's, a runner-up's, that of a probe under way or that of a
reattachment under way.  A reattachment whose call has not been settled belongs to the innermost
call, which awaits its outcome, and the choice's own connection has ended.
-/

namespace Stim.Cli.OffloadBuild

open Stim.Cli.OffloadBuild.World

/-! ## The invariant -/

def ReattachStage.conn : ReattachStage → Option Conn
  | .attaching c => some c
  | .handing c => some c
  | .resumed (.connection c _) => some c
  | _ => none

def Pc.own : Pc → Option Conn
  | .probing _ (.starting c) => some c
  | .probing _ (.offering c) => some c
  | .probed _ (.offer c) => some c
  | _ => none

/-- The call that may store a connection of a reattachment. -/
def Frame.live (f : Frame) : Option CallId := if f.pc = .outcome then some f.id else none

/-- The connections that are the innermost call's, a reattachment's or the choice's. -/
def Named (own : Option Conn) (w : World) (c : Conn) : Prop :=
  c = w.connection ∨ c ∈ w.runnersUp ∨ own = some c ∨
    ∃ k task, (w.shared k).reattach = some task ∧ task.stage.conn = some c

/-- What holds of connections and reattachments while the innermost call holds `own` and `live`
is what its outcome is awaited of. -/
structure Core (own : Option Conn) (live : Option CallId) (w : World) : Prop where
  held : ∀ c, w.isOpen c = true → Named own w c
  known : ∀ c, Named own w c → c < w.nextConn
  ended : w.cancelled = true → w.isOpen w.connection = false ∧ w.runnersUp = []
  unsettled : ∀ k task, (w.shared k).reattach = some task → (w.shared k).settled = none →
    live = some k ∧ w.isOpen w.connection = false
  listening : ∀ c k, w.listener c = some (.call k) → w.isOpen c = true →
    (w.shared k).job = true → (w.shared k).settled = none → live = some k ∧ c = w.connection
  attached : ∀ c k, w.listener c = some (.reattach k) → w.isOpen c = true →
    ∃ task, (w.shared k).reattach = some task ∧ task.stage.conn = some c
  early : ∀ k task c, (w.shared k).reattach = some task → task.stage.conn = some c →
    .dropped ∈ task.early → w.isOpen c = false
  newConns : ∀ c, w.nextConn ≤ c → w.isOpen c = false ∧ w.listener c = none
  newCalls : ∀ k, w.nextCall ≤ k → w.shared k = .new ∧ ∀ c, w.listener c ≠ some (.call k)

/-- The choice holds nothing. -/
def Closed (w : World) : Prop := w.isOpen w.connection = false ∧ w.runnersUp = []

/-- Nothing of the call can still store a connection. -/
def Idle (w : World) (k : CallId) : Prop :=
  (w.shared k).job = true → (w.shared k).settled ≠ none

/-- What the innermost call knows where it waits. -/
def AtPc (f : Frame) (w : World) : Prop :=
  match f.pc with
  | .entry | .loop | .peer | .inputs | .sync =>
      f.catching = false ∧ (w.shared f.id).job = false ∧
        ∀ c, w.listener c = some (.call f.id) → w.isOpen c = false
  | .start =>
      f.catching = false ∧ (w.shared f.id).job = false ∧
        (∀ c, w.listener c = some (.call f.id) → w.isOpen c = true → c = w.connection) ∧
        (.dropped ∈ (w.shared f.id).early → w.isOpen w.connection = false) ∧
        (w.cancelled = true → (w.shared f.id).settled ≠ none)
  | .outcome => f.catching = false ∧ (w.cancelled = true → (w.shared f.id).settled ≠ none)
  | .fetch | .recheck => f.catching = false ∧ Idle w f.id
  | .probing _ _ | .probed _ _ | .delaying _ => Idle w f.id ∧ w.isOpen w.connection = false
  | .reprobed _ => Idle w f.id
  | .nested result => Idle w f.id ∧ (result ≠ none → Closed w) ∧
      (result = some .thrown → w.cancelled = true)

/-- A call that waits for a call of itself. -/
structure Waiting (w : World) (f : Frame) : Prop where
  pc : f.pc = .nested none
  keepStaging : f.keepStaging = false
  id : f.id < w.nextCall
  idle : Idle w f.id

/-- The calls of a world. -/
structure Stacked (f : Frame) (rest : List Frame) (w : World) : Prop where
  keepStaging : f.keepStaging = false
  id : f.id < w.nextCall
  waiting : ∀ g ∈ rest, Waiting w g
  nodup : (f.id :: rest.map Frame.id).Nodup

def Inv (w : World) : Prop :=
  match w.stack with
  | [] => Core none none w ∧ Closed w ∧ (w.staging = true → w.result = some .ok)
  | f :: rest => Core f.pc.own f.live w ∧ Stacked f rest w ∧ AtPc f w

/-- The innermost call between two suspension points, with nothing of it able to store. -/
structure Running (own : Option Conn) (f : Frame) (rest : List Frame) (w : World) : Prop where
  core : Core own none w
  stacked : Stacked f rest w
  idle : Idle w f.id

/-! ## Steps that close -/

section Closing

variable {w w' : World} {own own' : Option Conn} {live : Option CallId}

/-- Connections are closed and the choice changed, the calls as they were. -/
theorem Core.narrow (h : Core own live w) (hOpen : ∀ c, w'.isOpen c = true → w.isOpen c = true)
    (hListener : ∀ c l, w'.listener c = some l → w.listener c = some l)
    (hHeld : ∀ c, w'.isOpen c = true → c = w.connection ∨ c ∈ w.runnersUp ∨ own = some c →
      c = w'.connection ∨ c ∈ w'.runnersUp ∨ own' = some c)
    (hKnown : ∀ c, c = w'.connection ∨ c ∈ w'.runnersUp ∨ own' = some c →
      c = w.connection ∨ c ∈ w.runnersUp ∨ own = some c) (hOver : w'.cancelled = true → Closed w')
    (hConnection : live = none ∨ w'.connection = w.connection) (hShared : w'.shared = w.shared)
    (hConns : w'.nextConn = w.nextConn) (hCalls : w.nextCall ≤ w'.nextCall) :
    Core own' live w' := by
  have hShut : ∀ c, w.isOpen c = false → w'.isOpen c = false := by
    intro c hc
    by_contra hNot
    rw [hOpen c (by simpa using hNot)] at hc
    cases hc
  refine ⟨?_, ?_, hOver, ?_, ?_, ?_, ?_, ?_, ?_⟩
  · intro c hc
    unfold Named
    rw [hShared]
    rcases h.held c (hOpen c hc) with hMine | hMine | hMine | hTask
    · exact (hHeld c hc (.inl hMine)).imp_right fun h => h.imp_right .inl
    · exact (hHeld c hc (.inr (.inl hMine))).imp_right fun h => h.imp_right .inl
    · exact (hHeld c hc (.inr (.inr hMine))).imp_right fun h => h.imp_right .inl
    · exact .inr (.inr (.inr hTask))
  · intro c hc
    unfold Named at hc
    rw [hShared] at hc
    rw [hConns]
    refine h.known c ?_
    rcases hc with hMine | hMine | hMine | hTask
    · exact (hKnown c (.inl hMine)).imp_right fun h => h.imp_right .inl
    · exact (hKnown c (.inr (.inl hMine))).imp_right fun h => h.imp_right .inl
    · exact (hKnown c (.inr (.inr hMine))).imp_right fun h => h.imp_right .inl
    · exact .inr (.inr (.inr hTask))
  · rw [hShared]
    intro k task hTask hSettled
    obtain ⟨hLive, hClosed⟩ := h.unsettled k task hTask hSettled
    refine ⟨hLive, ?_⟩
    rcases hConnection with hNone | hSame
    · rw [hNone] at hLive
      cases hLive
    · rw [hSame]
      exact hShut _ hClosed
  · rw [hShared]
    intro c k hl hc hJob hSettled
    obtain ⟨hLive, hEq⟩ := h.listening c k (hListener c _ hl) (hOpen c hc) hJob hSettled
    refine ⟨hLive, ?_⟩
    rcases hConnection with hNone | hSame
    · rw [hNone] at hLive
      cases hLive
    · rw [hSame]
      exact hEq
  · rw [hShared]
    exact fun c k hl hc => h.attached c k (hListener c _ hl) (hOpen c hc)
  · rw [hShared]
    exact fun k task c hTask hConn hEarly => hShut c (h.early k task c hTask hConn hEarly)
  · rw [hConns]
    intro c hc
    obtain ⟨hOld, hNone⟩ := h.newConns c hc
    refine ⟨hShut c hOld, Option.eq_none_iff_forall_ne_some.mpr fun l hl => ?_⟩
    rw [hListener c l hl] at hNone
    cases hNone
  · rw [hShared]
    intro k hk
    obtain ⟨hNew, hNone⟩ := h.newCalls k (Nat.le_trans hCalls hk)
    exact ⟨hNew, fun c hl => hNone c (hListener c _ hl)⟩

end Closing

/-! ## Steps of the calls' variables -/

section Variables

variable {w : World} {own : Option Conn} {live : Option CallId} {k : CallId} {s : Shared}
  {task : Reattach}

@[simp] theorem shared_setShared_self : (w.setShared k s).shared k = s := Function.update_self ..

theorem shared_setShared_of_ne {q : CallId} (h : q ≠ k) :
    (w.setShared k s).shared q = w.shared q := Function.update_of_ne h ..

theorem Core.lt_of_reattach (h : Core own live w) (hTask : (w.shared k).reattach = some task) :
    k < w.nextCall := by
  by_contra hNot
  rw [(h.newCalls k (Nat.le_of_not_lt hNot)).1] at hTask
  cases hTask

/-- A call's variables other than those of its reattachment change; a settled call stays so. -/
theorem Core.setShared (h : Core own live w) (hk : k < w.nextCall)
    (hSettled : s.settled = none → (w.shared k).settled = none) (hJob : s.job = (w.shared k).job)
    (hTask : s.reattach = (w.shared k).reattach) : Core own live (w.setShared k s) := by
  have hReattach : ∀ q, ((w.setShared k s).shared q).reattach = (w.shared q).reattach := by
    intro q
    by_cases hq : q = k
    · rw [hq, shared_setShared_self, hTask]
    · rw [shared_setShared_of_ne hq]
  have hJobs : ∀ q, ((w.setShared k s).shared q).job = (w.shared q).job := by
    intro q
    by_cases hq : q = k
    · rw [hq, shared_setShared_self, hJob]
    · rw [shared_setShared_of_ne hq]
  have hUnsettled : ∀ q, ((w.setShared k s).shared q).settled = none →
      (w.shared q).settled = none := by
    intro q hNone
    by_cases hq : q = k
    · rw [hq, shared_setShared_self] at hNone
      rw [hq]
      exact hSettled hNone
    · rwa [shared_setShared_of_ne hq] at hNone
  have hNamed : ∀ c, Named own (w.setShared k s) c ↔ Named own w c := by
    intro c
    unfold Named
    simp only [hReattach]
    exact Iff.rfl
  refine ⟨?_, ?_, h.ended, ?_, ?_, ?_, ?_, h.newConns, ?_⟩
  · exact fun c hc => (hNamed c).mpr (h.held c hc)
  · exact fun c hc => h.known c ((hNamed c).mp hc)
  · intro q task hq hNone
    rw [hReattach] at hq
    exact h.unsettled q task hq (hUnsettled q hNone)
  · intro c q hl hc hJob' hNone
    rw [hJobs] at hJob'
    exact h.listening c q hl hc hJob' (hUnsettled q hNone)
  · intro c q hl hc
    rw [hReattach]
    exact h.attached c q hl hc
  · intro q task c hq
    rw [hReattach] at hq
    exact h.early q task c hq
  · intro q hq
    have hNe : q ≠ k := fun hEq => absurd (hEq ▸ hq) (Nat.not_le.mpr hk)
    rw [shared_setShared_of_ne hNe]
    exact h.newCalls q hq

theorem settled_settle {ok : Bool} : ((w.settle k ok).shared k).settled ≠ none := by
  unfold World.settle
  rw [shared_setShared_self]
  cases (w.shared k).settled <;> simp

theorem Core.settle (h : Core own live w) (hk : k < w.nextCall) (ok : Bool) :
    Core own live (w.settle k ok) := by
  refine h.setShared hk ?_ rfl rfl
  intro hNone
  cases hOld : (w.shared k).settled with
  | none => rfl
  | some ok' => simp [hOld] at hNone

/-- The task of a reattachment becomes another one, or ends. -/
theorem Core.setReattach (h : Core own live w) (hTask : (w.shared k).reattach = some task)
    {next : Option Reattach}
    (hHeld : ∀ c, w.isOpen c = true → task.stage.conn = some c →
      ∃ task', next = some task' ∧ task'.stage.conn = some c)
    (hKnown : ∀ task' c, next = some task' → task'.stage.conn = some c → c < w.nextConn)
    (hEarly : ∀ task' c, next = some task' → task'.stage.conn = some c →
      .dropped ∈ task'.early → w.isOpen c = false) :
    Core own live (w.setShared k { w.shared k with reattach := next }) := by
  have hk := h.lt_of_reattach hTask
  refine ⟨?_, ?_, h.ended, ?_, ?_, ?_, ?_, h.newConns, ?_⟩
  · intro c hc
    refine (h.held c hc).imp_right fun h => h.imp_right fun h => h.imp_right ?_
    rintro ⟨q, task', hq, hConn⟩
    by_cases hEq : q = k
    · rw [hEq, hTask] at hq
      cases hq
      obtain ⟨task', hNext, hConn'⟩ := hHeld c hc hConn
      exact ⟨k, task', by rw [shared_setShared_self]; exact hNext, hConn'⟩
    · exact ⟨q, task', by rw [shared_setShared_of_ne hEq]; exact hq, hConn⟩
  · rintro c (hMine | hMine | hMine | ⟨q, task', hq, hConn⟩)
    · exact h.known c (.inl hMine)
    · exact h.known c (.inr (.inl hMine))
    · exact h.known c (.inr (.inr (.inl hMine)))
    · by_cases hEq : q = k
      · rw [hEq, shared_setShared_self] at hq
        exact hKnown task' c hq hConn
      · rw [shared_setShared_of_ne hEq] at hq
        exact h.known c (.inr (.inr (.inr ⟨q, task', hq, hConn⟩)))
  · intro q task' hq hNone
    by_cases hEq : q = k
    · rw [hEq, shared_setShared_self] at hNone
      rw [hEq]
      exact h.unsettled k task hTask hNone
    · rw [shared_setShared_of_ne hEq] at hq hNone
      exact h.unsettled q task' hq hNone
  · intro c q hl hc hJob hNone
    by_cases hEq : q = k
    · rw [hEq, shared_setShared_self] at hJob hNone
      rw [hEq] at hl ⊢
      exact h.listening c k hl hc hJob hNone
    · rw [shared_setShared_of_ne hEq] at hJob hNone
      exact h.listening c q hl hc hJob hNone
  · intro c q hl hc
    obtain ⟨task', hq, hConn⟩ := h.attached c q hl hc
    by_cases hEq : q = k
    · rw [hEq, hTask] at hq
      cases hq
      obtain ⟨task', hNext, hConn'⟩ := hHeld c hc hConn
      exact ⟨task', by rw [hEq, shared_setShared_self]; exact hNext, hConn'⟩
    · exact ⟨task', by rw [shared_setShared_of_ne hEq]; exact hq, hConn⟩
  · intro q task' c hq hConn hDropped
    by_cases hEq : q = k
    · rw [hEq, shared_setShared_self] at hq
      exact hEarly task' c hq hConn hDropped
    · rw [shared_setShared_of_ne hEq] at hq
      exact h.early q task' c hq hConn hDropped
  · intro q hq
    have hNe : q ≠ k := fun hEq => absurd (hEq ▸ hq) (Nat.not_le.mpr hk)
    rw [shared_setShared_of_ne hNe]
    exact h.newCalls q hq

/-- A reattachment goes on with the connection it had, or without one that is closed. -/
theorem Core.setStage (h : Core own live w) (hTask : (w.shared k).reattach = some task)
    {stage : ReattachStage}
    (hKept : ∀ c, w.isOpen c = true → task.stage.conn = some c → stage.conn = some c)
    (hSame : ∀ c, stage.conn = some c → task.stage.conn = some c) :
    Core own live (w.setStage k task stage) := by
  refine h.setReattach hTask ?_ ?_ ?_
  · exact fun c hc hConn => ⟨_, rfl, hKept c hc hConn⟩
  · rintro task' c ⟨⟩ hConn
    exact h.known c (.inr (.inr (.inr ⟨k, task, hTask, hSame c hConn⟩)))
  · rintro task' c ⟨⟩ hConn hDropped
    exact h.early k task c hTask (hSame c hConn) hDropped

/-- Once the innermost call is settled nothing can store. -/
theorem Core.unlive (h : Core own (some k) w) (hSettled : (w.shared k).settled ≠ none) :
    Core own none w := by
  refine ⟨h.held, h.known, h.ended, ?_, ?_, h.attached, h.early, h.newConns, h.newCalls⟩
  · intro q task hTask hNone
    obtain ⟨hLive, -⟩ := h.unsettled q task hTask hNone
    cases hLive
    exact absurd hNone hSettled
  · intro c q hl hc hJob hNone
    obtain ⟨hLive, -⟩ := h.listening c q hl hc hJob hNone
    cases hLive
    exact absurd hNone hSettled

theorem Core.relive (h : Core own none w) : Core own live w := by
  refine ⟨h.held, h.known, h.ended, ?_, ?_, h.attached, h.early, h.newConns, h.newCalls⟩
  · intro q task hTask hNone
    cases (h.unsettled q task hTask hNone).1
  · intro c q hl hc hJob hNone
    cases (h.listening c q hl hc hJob hNone).1

end Variables

/-! ## The ways a call goes on -/

section Ways

variable {w w' : World} {own : Option Conn} {f : Frame} {rest : List Frame}

/-- Worlds whose connections, choice and calls' variables are the same. -/
structure Same (w w' : World) : Prop where
  isOpen : w'.isOpen = w.isOpen
  listener : w'.listener = w.listener
  nextConn : w'.nextConn = w.nextConn
  connection : w'.connection = w.connection
  runnersUp : w'.runnersUp = w.runnersUp
  cancelled : w'.cancelled = w.cancelled
  shared : w'.shared = w.shared
  nextCall : w'.nextCall = w.nextCall

theorem Core.of_same {live : Option CallId} (h : Core own live w) (hSame : Same w w') :
    Core own live w' := by
  obtain ⟨hOpen, hListener, hConns, hConnection, hRunners, hCancelled, hShared, hCalls⟩ := hSame
  refine h.narrow ?_ ?_ ?_ ?_ ?_ (.inr hConnection) hShared hConns (Nat.le_of_eq hCalls.symm)
  · simp [hOpen]
  · simp [hListener]
  · rw [hConnection, hRunners]
    exact fun _ _ hMine => hMine
  · rw [hConnection, hRunners]
    exact fun _ hMine => hMine
  · rw [hCancelled]
    intro hTrue
    unfold Closed
    rw [hOpen, hConnection, hRunners]
    exact h.ended hTrue

variable {cs : List Conn} {c : Conn}

theorem closeAll_isOpen (h : (w.closeAll cs).isOpen c = true) : w.isOpen c = true ∧ c ∉ cs := by
  simpa [closeAll] using h

theorem isOpen_closeAll (h : c ∈ cs) : (w.closeAll cs).isOpen c = false := by
  simp [closeAll, h]

theorem closeAll_listener {l : Listener} (h : (w.closeAll cs).listener c = some l) :
    w.listener c = some l ∧ c ∉ cs := by
  simp only [closeAll, Option.ite_none_left_eq_some] at h
  exact ⟨h.2, h.1⟩

theorem Waiting.of_idle {g : Frame} (h : Waiting w g) (hCalls : w.nextCall ≤ w'.nextCall)
    (hIdle : Idle w g.id → Idle w' g.id) : Waiting w' g :=
  ⟨h.pc, h.keepStaging, Nat.lt_of_lt_of_le h.id hCalls, hIdle h.idle⟩

theorem Idle.of_shared {q : CallId} (h : Idle w q) (hShared : w'.shared q = w.shared q) :
    Idle w' q := by
  unfold Idle
  rw [hShared]
  exact h

theorem Stacked.of_idle (h : Stacked f rest w) (hCalls : w.nextCall ≤ w'.nextCall)
    (hIdle : ∀ g ∈ rest, Idle w g.id → Idle w' g.id) : Stacked f rest w' :=
  ⟨h.keepStaging, Nat.lt_of_lt_of_le h.id hCalls,
    fun g hg => (h.waiting g hg).of_idle hCalls (hIdle g hg), h.nodup⟩

theorem Stacked.of_shared (h : Stacked f rest w) (hCalls : w.nextCall ≤ w'.nextCall)
    (hShared : w'.shared = w.shared) : Stacked f rest w' :=
  h.of_idle hCalls fun g _ hIdle => hIdle.of_shared (congrFun hShared g.id)

theorem Stacked.of_same (h : Stacked f rest w) (hSame : Same w w') : Stacked f rest w' :=
  h.of_shared (Nat.le_of_eq hSame.nextCall.symm) hSame.shared

theorem Stacked.ne (h : Stacked f rest w) {g : Frame} (hg : g ∈ rest) : g.id ≠ f.id := by
  intro hEq
  exact (List.nodup_cons.mp h.nodup).1 (hEq ▸ List.mem_map_of_mem hg)

/-- A step that closes connections or changes the choice keeps the call running. -/
theorem Running.narrow {own' : Option Conn} (h : Running own f rest w)
    (hOpen : ∀ c, w'.isOpen c = true → w.isOpen c = true)
    (hListener : ∀ c l, w'.listener c = some l → w.listener c = some l)
    (hHeld : ∀ c, w'.isOpen c = true → c = w.connection ∨ c ∈ w.runnersUp ∨ own = some c →
      c = w'.connection ∨ c ∈ w'.runnersUp ∨ own' = some c)
    (hKnown : ∀ c, c = w'.connection ∨ c ∈ w'.runnersUp ∨ own' = some c →
      c = w.connection ∨ c ∈ w.runnersUp ∨ own = some c) (hOver : w'.cancelled = true → Closed w')
    (hShared : w'.shared = w.shared) (hConns : w'.nextConn = w.nextConn)
    (hCalls : w'.nextCall = w.nextCall) : Running own' f rest w' :=
  ⟨h.core.narrow hOpen hListener hHeld hKnown hOver (.inl rfl) hShared hConns (Nat.le_of_eq hCalls.symm),
    h.stacked.of_shared (Nat.le_of_eq hCalls.symm) hShared,
    h.idle.of_shared (congrFun hShared f.id)⟩

/-- A connection of the call's own is closed. -/
theorem Running.closeOwn (h : Running (some c) f rest w) :
    Running none f rest (w.closeAll [c]) := by
  refine h.narrow (fun c hc => (closeAll_isOpen hc).1) (fun c l hl => (closeAll_listener hl).1)
    ?_ ?_ ?_ rfl rfl rfl
  · rintro c' hc (hMine | hMine | hMine)
    · exact .inl hMine
    · exact .inr (.inl hMine)
    · cases hMine
      exact absurd (List.mem_singleton_self c) (closeAll_isOpen hc).2
  · rintro c' (hMine | hMine | hMine)
    · exact .inl hMine
    · exact .inr (.inl hMine)
    · cases hMine
  · intro hCancelled
    obtain ⟨hConnection, hRunners⟩ := h.core.ended hCancelled
    exact ⟨by simp [closeAll, hConnection], hRunners⟩

theorem Running.closeOffload (h : Running own f rest w) (hOwn : own = none) :
    Running none f rest w.closeOffload ∧ Closed w.closeOffload := by
  have hClosed : Closed w.closeOffload :=
    ⟨isOpen_closeAll (List.mem_cons_self ..), rfl⟩
  refine ⟨h.narrow (fun c hc => (closeAll_isOpen hc).1)
    (fun c l hl => (closeAll_listener hl).1) ?_ ?_ (fun _ => hClosed) rfl rfl rfl, hClosed⟩
  · rintro c hc (hMine | hMine | hMine)
    · exact absurd (hMine ▸ List.mem_cons_self ..) (closeAll_isOpen hc).2
    · exact absurd (List.mem_cons_of_mem _ hMine) (closeAll_isOpen hc).2
    · rw [hOwn] at hMine
      cases hMine
  · rintro c (hMine | hMine | hMine)
    · exact .inl hMine
    · cases hMine
    · cases hMine

/-- The choice's connection is closed. -/
theorem Running.closeConnection (h : Running none f rest w) :
    Running none f rest (w.closeAll [w.connection]) := by
  refine h.narrow (fun c hc => (closeAll_isOpen hc).1) (fun c l hl => (closeAll_listener hl).1)
    (fun c hc hMine => hMine) (fun c hMine => hMine) ?_ rfl rfl rfl
  intro hCancelled
  exact ⟨isOpen_closeAll (List.mem_singleton_self _), (h.core.ended hCancelled).2⟩

theorem Running.goto {pc : Pc} (h : Running pc.own f rest w) (hPc : pc ≠ .outcome)
    (hAt : AtPc { f with pc := pc } w) : Inv (w.goto f rest pc) := by
  have hLive : Frame.live { f with pc := pc } = none := if_neg hPc
  have hSame : Same w (w.goto f rest pc) := ⟨rfl, rfl, rfl, rfl, rfl, rfl, rfl, rfl⟩
  have hStacked := h.stacked.of_same hSame
  refine ⟨?_, ⟨hStacked.keepStaging, hStacked.id, hStacked.waiting, hStacked.nodup⟩, hAt⟩
  rw [hLive]
  exact h.core.of_same hSame

/-- A call ends with everything of the choice closed. -/
theorem Running.finish {result : Result} (h : Running none f rest w) (keepStaging : Bool)
    (hClosed : Closed w) (hThrown : result = .thrown → w.cancelled = true)
    (hKeep : keepStaging = true → result = .ok) :
    Inv (w.finish { f with keepStaging := keepStaging } rest result) := by
  unfold World.finish
  cases rest with
  | nil =>
      refine ⟨h.core.of_same ⟨rfl, rfl, rfl, rfl, rfl, rfl, rfl, rfl⟩, hClosed, ?_⟩
      intro hStaging
      have hBoth : w.staging = true ∧ keepStaging = true := by simpa using hStaging
      exact congrArg some (hKeep hBoth.2)
  | cons outer rest =>
      have hOuter := h.stacked.waiting outer (List.mem_cons_self ..)
      have hNodup := (List.nodup_cons.mp h.stacked.nodup).2
      refine ⟨h.core.of_same ⟨rfl, rfl, rfl, rfl, rfl, rfl, rfl, rfl⟩, ⟨hOuter.keepStaging,
        hOuter.id, fun g hg => ?_, hNodup⟩, ?_⟩
      · exact (h.stacked.waiting g (List.mem_cons_of_mem _ hg)).of_idle (Nat.le_refl _) fun h => h
      exact ⟨hOuter.idle, fun _ => hClosed, fun hEq => hThrown (Option.some.inj hEq)⟩

theorem Running.fail (h : Running none f rest w) : Inv (w.fail f rest) := by
  obtain ⟨hRunning, hClosed⟩ := h.closeOffload rfl
  have hKeep := h.stacked.keepStaging
  exact hRunning.finish f.keepStaging hClosed (by simp) (by simp [hKeep])

theorem Running.succeed (h : Running none f rest w) : Inv (w.succeed f rest) := by
  obtain ⟨hRunning, hClosed⟩ := h.closeOffload rfl
  exact hRunning.finish true hClosed (by simp) (fun _ => rfl)

theorem Running.throw (h : Running none f rest w) (hCancelled : w.cancelled = true) :
    Inv (w.finish f rest .thrown) := by
  have hKeep := h.stacked.keepStaging
  exact h.finish f.keepStaging (h.core.ended hCancelled) (fun _ => hCancelled)
    (by simp [hKeep])

theorem Running.reprobe (h : Running none f rest w) (retry : Retry) :
    Inv (w.reprobe f rest retry) := by
  have hRunning : Running (Pc.own (.probing retry .resolving)) f rest
      (w.closeAll [w.connection]) := h.closeConnection
  exact hRunning.goto (by simp) ⟨h.idle, isOpen_closeAll (List.mem_singleton_self _)⟩

theorem Running.retryAfterLoss (h : Running none f rest w) : Inv (w.retryAfterLoss f rest) := by
  unfold World.retryAfterLoss
  split
  · exact h.fail
  · exact h.reprobe .lost

theorem Running.recurse (h : Running none f rest w) (restarts : Nat) :
    Inv (w.recurse f rest restarts) := by
  have hNew := h.core.newCalls w.nextCall (Nat.le_refl _)
  have hLt : ∀ g ∈ rest, g.id < w.nextCall := fun g hg => (h.stacked.waiting g hg).id
  refine ⟨?_, ⟨rfl, Nat.lt_succ_self _, ?_, ?_⟩, ?_⟩
  · exact h.core.narrow (fun _ hc => hc) (fun _ _ hl => hl) (fun _ _ hMine => hMine)
      (fun _ hMine => hMine) h.core.ended (.inl rfl) rfl rfl (Nat.le_succ _)
  · intro g hg
    rcases List.mem_cons.mp hg with rfl | hRest
    · exact ⟨rfl, h.stacked.keepStaging, Nat.lt_succ_of_lt h.stacked.id, h.idle⟩
    · exact (h.stacked.waiting g hRest).of_idle (Nat.le_succ _) fun h => h
  · refine List.nodup_cons.mpr ⟨?_, h.stacked.nodup⟩
    intro hMem
    rcases List.mem_cons.mp hMem with hEq | hRest
    · exact absurd h.stacked.id (by rw [← hEq]; exact Nat.lt_irrefl _)
    · obtain ⟨g, hg, hEq⟩ := List.mem_map.mp hRest
      exact absurd (hLt g hg) (by rw [hEq]; exact Nat.lt_irrefl _)
  · refine ⟨rfl, ?_, fun c hl => absurd hl (hNew.2 c)⟩
    show (w.shared w.nextCall).job = false
    rw [hNew.1]
    rfl

/-- The choice moves to its next machine. -/
theorem Running.moveTo {next : Conn} {more : List Conn} (h : Running none f rest w)
    (hRunners : w.runnersUp = next :: more) : Running none f rest (w.moveTo next more) := by
  refine h.narrow (fun c hc => (closeAll_isOpen hc).1) (fun c l hl => (closeAll_listener hl).1)
    ?_ ?_ ?_ rfl rfl rfl
  · rintro c hc (hMine | hMine | hMine)
    · exact absurd (hMine ▸ List.mem_singleton_self _) (closeAll_isOpen hc).2
    · rw [hRunners] at hMine
      rcases List.mem_cons.mp hMine with hEq | hMore
      · exact .inl hEq
      · exact .inr (.inl hMore)
    · cases hMine
  · rw [hRunners]
    rintro c (hMine | hMine | hMine)
    · exact .inr (.inl (hMine ▸ List.mem_cons_self ..))
    · exact .inr (.inl (List.mem_cons_of_mem _ hMine))
    · cases hMine
  · -- a cancelled choice has no runner-up left
    intro hCancelled
    have hNone := (h.core.ended hCancelled).2
    rw [hRunners] at hNone
    cases hNone

theorem Running.retryCachedMiss (h : Running none f rest w) : Inv (w.retryCachedMiss f rest) := by
  unfold World.retryCachedMiss
  split
  · rename_i hCancelled
    exact h.throw hCancelled
  · split
    · rename_i hRunners
      exact (h.moveTo hRunners).recurse f.restarts
    · split
      · exact h.fail
      · exact h.reprobe .cachedMiss

theorem Running.catching (h : Running own f rest w) (catching : Bool) :
    Running own { f with catching := catching } rest w :=
  ⟨h.core, ⟨h.stacked.keepStaging, h.stacked.id, h.stacked.waiting, h.stacked.nodup⟩, h.idle⟩

theorem Running.raise (h : Running none f rest w)
    (hCatching : w.cancelled = true ∨ f.catching = false) : Inv (w.raise f rest) := by
  unfold World.raise
  split
  · rename_i hOut
    refine h.throw ?_
    rcases hCatching with hCancelled | hNot
    · exact hCancelled
    · simpa [hNot] using hOut
  · split
    · exact (h.catching true).retryCachedMiss
    · exact (h.catching true).fail

/-- `moveOn`, from where nothing but the choice's connection listens for the call. -/
theorem Running.moveOn {otherwise : World} (h : Running none f rest w)
    (hCatching : f.catching = false) (hJob : (w.shared f.id).job = false)
    (hListener : ∀ c, w.listener c = some (.call f.id) → w.isOpen c = true → c = w.connection)
    (hOtherwise : Inv otherwise) : Inv (w.moveOn f rest otherwise) := by
  unfold World.moveOn
  split
  · rename_i next more hRunners
    have hMoved : Running (Pc.own .loop) f rest (w.moveTo next more) := h.moveTo hRunners
    refine hMoved.goto (by simp) ⟨hCatching, hJob, ?_⟩
    intro c hl
    by_contra hNot
    have hc : (w.moveTo next more).isOpen c = true := by simpa using hNot
    obtain ⟨hOpen, hOther⟩ := closeAll_isOpen hc
    exact hOther (hListener c (closeAll_listener hl).1 hOpen ▸ List.mem_singleton_self _)
  · exact hOtherwise

end Ways

/-! ## Progress -/

section Progress

variable {w w' : World} {own : Option Conn} {live : Option CallId} {k : CallId} {f : Frame}
  {rest : List Frame}

/-- What progress leaves alone. -/
structure Settles (w w' : World) : Prop where
  isOpen : w'.isOpen = w.isOpen
  listener : w'.listener = w.listener
  nextConn : w'.nextConn = w.nextConn
  connection : w'.connection = w.connection
  runnersUp : w'.runnersUp = w.runnersUp
  cancelled : w'.cancelled = w.cancelled
  nextCall : w'.nextCall = w.nextCall
  stack : w'.stack = w.stack
  staging : w'.staging = w.staging
  result : w'.result = w.result
  job : ∀ q, (w'.shared q).job = (w.shared q).job
  settled : ∀ q, (w.shared q).settled ≠ none → (w'.shared q).settled ≠ none

theorem Settles.refl (w : World) : Settles w w :=
  ⟨rfl, rfl, rfl, rfl, rfl, rfl, rfl, rfl, rfl, rfl, fun _ => rfl, fun _ h => h⟩

theorem Settles.trans {w'' : World} (h : Settles w w') (h' : Settles w' w'') : Settles w w'' :=
  ⟨h'.isOpen.trans h.isOpen, h'.listener.trans h.listener, h'.nextConn.trans h.nextConn,
    h'.connection.trans h.connection, h'.runnersUp.trans h.runnersUp, h'.cancelled.trans h.cancelled, h'.nextCall.trans h.nextCall,
    h'.stack.trans h.stack, h'.staging.trans h.staging, h'.result.trans h.result,
    fun q => (h'.job q).trans (h.job q), fun q hq => h'.settled q (h.settled q hq)⟩

theorem Settles.setShared {s : Shared} (hJob : s.job = (w.shared k).job)
    (hSettled : (w.shared k).settled ≠ none → s.settled ≠ none) : Settles w (w.setShared k s) := by
  refine ⟨rfl, rfl, rfl, rfl, rfl, rfl, rfl, rfl, rfl, rfl, ?_, ?_⟩
  · intro q
    by_cases hq : q = k
    · rw [hq, shared_setShared_self, hJob]
    · rw [shared_setShared_of_ne hq]
  · intro q hNone
    by_cases hq : q = k
    · rw [hq] at hNone ⊢
      rw [shared_setShared_self]
      exact hSettled hNone
    · rwa [shared_setShared_of_ne hq]

theorem settles_settle (k : CallId) (ok : Bool) : Settles w (w.settle k ok) := by
  refine .setShared rfl ?_
  intro hOld
  cases hSettled : (w.shared k).settled <;> simp

theorem settles_reattach (k : CallId) : Settles w (w.reattach k) := by
  unfold World.reattach
  split
  · exact .refl w
  · exact .setShared rfl fun h => h

theorem settles_handle (k : CallId) (event : Event) : Settles w (w.handle k event) := by
  cases event with
  | built ok =>
      show Settles w (ite _ _ _)
      split
      · exact settles_settle k ok
      · exact .refl w
  | closed => exact settles_settle k false
  | dropped =>
      show Settles w (ite _ _ _)
      split
      · exact settles_reattach k
      · exact settles_settle k false

theorem Settles.idle (h : Settles w w') {q : CallId} (hIdle : Idle w q) : Idle w' q := by
  unfold Idle
  rw [h.job]
  exact fun hJob => h.settled q (hIdle hJob)

/-- A step that leaves the innermost call where it waits. -/
structure Along (f : Frame) (w w' : World) : Prop where
  connection : w'.connection = w.connection
  nextCall : w'.nextCall = w.nextCall
  runnersUp : w.runnersUp = [] → w'.runnersUp = []
  cancelled : w.cancelled = true → w'.cancelled = true
  job : ∀ q, (w'.shared q).job = (w.shared q).job
  settled : ∀ q, (w.shared q).settled ≠ none → (w'.shared q).settled ≠ none
  ended : w'.cancelled = true → w.cancelled = true ∨ (w'.shared f.id).settled ≠ none
  listening : ∀ c, w'.listener c = some (.call f.id) → w'.isOpen c = true →
    w.listener c = some (.call f.id) ∧ w.isOpen c = true
  shut : w.isOpen w.connection = false → w'.isOpen w'.connection = false
  early : f.pc = .start → .dropped ∈ (w'.shared f.id).early →
    .dropped ∈ (w.shared f.id).early ∨ w'.isOpen w'.connection = false

theorem Along.idle (h : Along f w w') {q : CallId} (hIdle : Idle w q) : Idle w' q := by
  unfold Idle
  rw [h.job]
  exact fun hJob => h.settled q (hIdle hJob)

theorem Along.stacked (h : Along f w w') (hStacked : Stacked f rest w) : Stacked f rest w' :=
  hStacked.of_idle (Nat.le_of_eq h.nextCall.symm) fun _ _ => h.idle

theorem Along.closed (h : Along f w w') (hClosed : Closed w) : Closed w' :=
  ⟨h.shut hClosed.1, h.runnersUp hClosed.2⟩

/-- Nothing begins to listen for the call. -/
theorem Along.unheard (h : Along f w w')
    (hNone : ∀ c, w.listener c = some (.call f.id) → w.isOpen c = false) :
    ∀ c, w'.listener c = some (.call f.id) → w'.isOpen c = false := by
  intro c hl
  by_contra hNot
  obtain ⟨hListener, hOpen⟩ := h.listening c hl (eq_true_of_ne_false hNot)
  rw [hNone c hListener] at hOpen
  cases hOpen

theorem Along.settledOver (h : Along f w w')
    (hSettled : w.cancelled = true → (w.shared f.id).settled ≠ none) :
    w'.cancelled = true → (w'.shared f.id).settled ≠ none := by
  intro hCancelled
  rcases h.ended hCancelled with hOld | hNow
  · exact h.settled _ (hSettled hOld)
  · exact hNow

theorem Along.atPc (h : Along f w w') (hAt : AtPc f w) : AtPc f w' := by
  unfold AtPc at hAt ⊢
  cases hPc : f.pc with
  | entry | loop | peer | inputs | sync =>
      simp only [hPc] at hAt
      exact ⟨hAt.1, (h.job _).trans hAt.2.1, h.unheard hAt.2.2⟩
  | start =>
      simp only [hPc] at hAt
      obtain ⟨hCatching, hJob, hListener, hDropped, hCancelled⟩ := hAt
      refine ⟨hCatching, (h.job _).trans hJob, ?_, ?_, h.settledOver hCancelled⟩
      · intro c hl hc
        obtain ⟨hOld, hOpen⟩ := h.listening c hl hc
        exact (hListener c hOld hOpen).trans h.connection.symm
      · intro hMem
        rcases h.early hPc hMem with hOld | hShut
        · exact h.shut (hDropped hOld)
        · exact hShut
  | outcome =>
      simp only [hPc] at hAt
      exact ⟨hAt.1, h.settledOver hAt.2⟩
  | fetch | recheck =>
      simp only [hPc] at hAt
      exact ⟨hAt.1, h.idle hAt.2⟩
  | probing | probed | delaying =>
      simp only [hPc] at hAt
      exact ⟨h.idle hAt.1, h.shut hAt.2⟩
  | reprobed =>
      simp only [hPc] at hAt
      exact h.idle hAt
  | nested result =>
      simp only [hPc] at hAt
      exact ⟨h.idle hAt.1, fun hSome => h.closed (hAt.2.1 hSome),
        fun hThrown => h.cancelled (hAt.2.2 hThrown)⟩

theorem Settles.along (h : Settles w w')
    (hEarly : f.pc = .start → .dropped ∈ (w'.shared f.id).early →
      .dropped ∈ (w.shared f.id).early ∨ w'.isOpen w'.connection = false) : Along f w w' where
  connection := h.connection
  nextCall := h.nextCall
  runnersUp := by rw [h.runnersUp]; exact fun hNone => hNone
  cancelled := by rw [h.cancelled]; exact fun hTrue => hTrue
  job := h.job
  settled := h.settled
  ended := by rw [h.cancelled]; exact .inl
  listening := by rw [h.listener, h.isOpen]; exact fun _ hl hc => ⟨hl, hc⟩
  shut := by rw [h.isOpen, h.connection]; exact fun hShut => hShut
  early := hEarly

theorem Settles.stacked (h : Settles w w') (hStacked : Stacked f rest w) : Stacked f rest w' :=
  hStacked.of_idle (Nat.le_of_eq h.nextCall.symm) fun _ _ => h.idle

/-- A reattachment begins once the choice's connection has ended. -/
theorem Core.reattach (h : Core own live w) (hk : k < w.nextCall)
    (hLive : (w.shared k).settled = none → live = some k ∧ w.isOpen w.connection = false) :
    Core own live (w.reattach k) := by
  unfold World.reattach
  split
  · exact h
  · rename_i hIdle
    have hNone : (w.shared k).reattach = none := by
      cases hTask : (w.shared k).reattach with
      | none => rfl
      | some task => simp [hTask] at hIdle
    have hOther : ∀ q task, (w.shared q).reattach = some task → q ≠ k := by
      rintro q task hTask rfl
      rw [hNone] at hTask
      cases hTask
    refine ⟨?_, ?_, h.ended, ?_, ?_, ?_, ?_, h.newConns, ?_⟩
    · intro c hc
      refine (h.held c hc).imp_right fun h => h.imp_right fun h => h.imp_right ?_
      rintro ⟨q, task, hTask, hConn⟩
      exact ⟨q, task, by rw [shared_setShared_of_ne (hOther q task hTask)]; exact hTask, hConn⟩
    · intro c hc
      refine h.known c (hc.imp_right fun h => h.imp_right fun h => h.imp_right ?_)
      rintro ⟨q, task, hTask, hConn⟩
      by_cases hq : q = k
      · rw [hq, shared_setShared_self] at hTask
        cases hTask
        cases hConn
      · rw [shared_setShared_of_ne hq] at hTask
        exact ⟨q, task, hTask, hConn⟩
    · intro q task hTask hSettled
      by_cases hq : q = k
      · rw [hq, shared_setShared_self] at hSettled
        rw [hq]
        exact hLive hSettled
      · rw [shared_setShared_of_ne hq] at hTask hSettled
        exact h.unsettled q task hTask hSettled
    · intro c q hl hc hJob hSettled
      by_cases hq : q = k
      · rw [hq, shared_setShared_self] at hJob hSettled
        rw [hq] at hl ⊢
        exact h.listening c k hl hc hJob hSettled
      · rw [shared_setShared_of_ne hq] at hJob hSettled
        exact h.listening c q hl hc hJob hSettled
    · intro c q hl hc
      obtain ⟨task, hTask, hConn⟩ := h.attached c q hl hc
      exact ⟨task, by rw [shared_setShared_of_ne (hOther q task hTask)]; exact hTask, hConn⟩
    · intro q task c hTask hConn hDropped
      by_cases hq : q = k
      · rw [hq, shared_setShared_self] at hTask
        cases hTask
        cases hConn
      · rw [shared_setShared_of_ne hq] at hTask
        exact h.early q task c hTask hConn hDropped
    · intro q hq
      have hNe : q ≠ k := fun hEq => absurd (hEq ▸ hq) (Nat.not_le.mpr hk)
      rw [shared_setShared_of_ne hNe]
      exact h.newCalls q hq

theorem Core.handle (h : Core own live w) (hk : k < w.nextCall) {event : Event}
    (hLive : event = .dropped → (w.shared k).job = true → (w.shared k).settled = none →
      live = some k ∧ w.isOpen w.connection = false) : Core own live (w.handle k event) := by
  cases event with
  | built ok =>
      show Core own live (ite _ _ _)
      split
      · exact h.settle hk ok
      · exact h
  | closed => exact h.settle hk false
  | dropped =>
      show Core own live (ite _ _ _)
      split
      · rename_i hJob
        exact h.reattach hk (hLive rfl hJob)
      · exact h.settle hk false

/-- The events that came early are handled. -/
theorem Core.handleAll (events : List Event) :
    ∀ {w : World}, Core own live w → k < w.nextCall →
      (.dropped ∈ events → (w.shared k).job = true → (w.shared k).settled = none →
        live = some k ∧ w.isOpen w.connection = false) →
      Core own live (w.handleAll k events) ∧ Settles w (w.handleAll k events) := by
  induction events with
  | nil => exact fun h _ _ => ⟨h, .refl _⟩
  | cons event events ih =>
      intro w h hk hLive
      have hSettles := settles_handle (w := w) k event
      have hFirst : Core own live (w.handle k event) :=
        h.handle hk fun hEq => hLive (hEq ▸ List.mem_cons_self ..)
      have hLater : .dropped ∈ events → ((w.handle k event).shared k).job = true →
          ((w.handle k event).shared k).settled = none →
            live = some k ∧ (w.handle k event).isOpen (w.handle k event).connection = false := by
        intro hMem hJob hNone
        rw [hSettles.job] at hJob
        rw [hSettles.isOpen, hSettles.connection]
        refine hLive (List.mem_cons_of_mem _ hMem) hJob ?_
        by_contra hSettled
        exact hSettles.settled k hSettled hNone
      obtain ⟨hCore, hRest⟩ := ih hFirst (by rw [hSettles.nextCall]; exact hk) hLater
      exact ⟨hCore, hSettles.trans hRest⟩

/-- The machine has taken the job. -/
theorem Core.startJob (h : Core own none w) (hk : k < w.nextCall)
    (hListener : ∀ c, w.listener c = some (.call k) → w.isOpen c = true → c = w.connection) :
    Core own (some k) (w.setShared k { w.shared k with job := true }) := by
  have hReattach : ∀ q, ((w.setShared k { w.shared k with job := true }).shared q).reattach =
      (w.shared q).reattach := by
    intro q
    by_cases hq : q = k
    · rw [hq, shared_setShared_self]
    · rw [shared_setShared_of_ne hq]
  have hSettled : ∀ q, ((w.setShared k { w.shared k with job := true }).shared q).settled =
      (w.shared q).settled := by
    intro q
    by_cases hq : q = k
    · rw [hq, shared_setShared_self]
    · rw [shared_setShared_of_ne hq]
  have hNamed : ∀ c, Named own (w.setShared k { w.shared k with job := true }) c ↔ Named own w c := by
    intro c
    unfold Named
    simp only [hReattach]
    exact Iff.rfl
  refine ⟨?_, ?_, h.ended, ?_, ?_, ?_, ?_, h.newConns, ?_⟩
  · exact fun c hc => (hNamed c).mpr (h.held c hc)
  · exact fun c hc => h.known c ((hNamed c).mp hc)
  · intro q task hTask hNone
    rw [hReattach] at hTask
    rw [hSettled] at hNone
    cases (h.unsettled q task hTask hNone).1
  · intro c q hl hc hJob hNone
    by_cases hq : q = k
    · rw [hq] at hl ⊢
      exact ⟨rfl, hListener c hl hc⟩
    · rw [shared_setShared_of_ne hq] at hJob hNone
      cases (h.listening c q hl hc hJob hNone).1
  · intro c q hl hc
    rw [hReattach]
    exact h.attached c q hl hc
  · intro q task c hTask
    rw [hReattach] at hTask
    exact h.early q task c hTask
  · intro q hq
    have hNe : q ≠ k := fun hEq => absurd (hEq ▸ hq) (Nat.not_le.mpr hk)
    rw [shared_setShared_of_ne hNe]
    exact h.newCalls q hq

/-- From the end of the loop to the wait for the outcome. -/
theorem inv_awaitOutcome (h : Core none (some f.id) w) (hStacked : Stacked f rest w)
    (hCatching : f.catching = false)
    (hCancelled : w.cancelled = true → (w.shared f.id).settled ≠ none)
    (hDropped : .dropped ∈ (w.shared f.id).early → (w.shared f.id).job = true →
      (w.shared f.id).settled = none → w.isOpen w.connection = false) :
    Inv (w.awaitOutcome f rest) := by
  -- the runners-up are closed unless the artifact is fetched from a cache
  obtain ⟨v, hv, hCore, hOpen, hConnection, hCancelled', hShared, hCalls⟩ :
      ∃ v, v = (if f.cacheHit then w else { w.closeAll w.runnersUp with runnersUp := [] }) ∧
        Core none (some f.id) v ∧ (∀ c, v.isOpen c = true → w.isOpen c = true) ∧
        v.connection = w.connection ∧ v.cancelled = w.cancelled ∧ v.shared = w.shared ∧
        v.nextCall = w.nextCall := by
    refine ⟨_, rfl, ?_⟩
    split
    · exact ⟨h, fun _ hc => hc, rfl, rfl, rfl, rfl⟩
    · refine ⟨h.narrow (fun c hc => (closeAll_isOpen hc).1)
        (fun c l hl => (closeAll_listener hl).1) ?_ ?_ ?_ (.inr rfl) rfl rfl (Nat.le_refl _),
        fun c hc => (closeAll_isOpen hc).1, rfl, rfl, rfl, rfl⟩
      · rintro c hc (hMine | hMine | hMine)
        · exact .inl hMine
        · exact absurd hMine (closeAll_isOpen hc).2
        · cases hMine
      · rintro c (hMine | hMine | hMine)
        · exact .inl hMine
        · cases hMine
        · cases hMine
      · intro hTrue
        obtain ⟨hShut, -⟩ := h.ended hTrue
        refine ⟨?_, rfl⟩
        show (w.isOpen w.connection && _) = false
        rw [hShut]
        rfl
  have hk : f.id < v.nextCall := hCalls ▸ hStacked.id
  have hCleared : Core none (some f.id)
      (v.setShared f.id { v.shared f.id with early := [] }) :=
    hCore.setShared hk (fun hNone => hNone) rfl rfl
  have hClears : Settles v (v.setShared f.id { v.shared f.id with early := [] }) :=
    .setShared rfl fun hSettled => hSettled
  obtain ⟨hHandled, hSettles⟩ := hCleared.handleAll (k := f.id) (v.shared f.id).early hk (by
    rw [shared_setShared_self, hShared]
    intro hMem hJob hNone
    refine ⟨rfl, ?_⟩
    by_contra hNot
    have hc : v.isOpen v.connection = true := eq_true_of_ne_false hNot
    have hShut := hDropped hMem hJob hNone
    rw [hConnection] at hc
    rw [hOpen _ hc] at hShut
    cases hShut)
  have hAll := hClears.trans hSettles
  have hStacked' : Stacked f rest v :=
    hStacked.of_shared (Nat.le_of_eq hCalls.symm) hShared
  have hEnd := hAll.stacked hStacked'
  show Inv (World.goto _ f rest .outcome)
  rw [← hv]
  refine ⟨?_, ⟨hEnd.keepStaging, hEnd.id, fun g hg => ?_, hEnd.nodup⟩, hCatching, ?_⟩
  · exact hHandled.of_same ⟨rfl, rfl, rfl, rfl, rfl, rfl, rfl, rfl⟩
  · exact (hEnd.waiting g hg).of_idle (Nat.le_refl _) fun h => h
  · intro hTrue
    refine hAll.settled f.id ?_
    rw [hShared]
    refine hCancelled ?_
    rw [← hCancelled', ← hAll.cancelled]
    exact hTrue

end Progress

end Stim.Cli.OffloadBuild
