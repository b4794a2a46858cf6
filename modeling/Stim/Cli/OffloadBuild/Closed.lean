import Stim.Cli.OffloadBuild.Holders

/-!
# What an offloaded build leaves behind

Every step keeps the invariant of the holders, unless a cancellation falls into the probe of
`reprobe` and that probe ends with a connection, or the probe's offer makes it throw.  Once the call is over and the reattachments are,
no connection is open, and the staging directory exists only with a result that is ok.
-/

namespace Stim.Cli.OffloadBuild

open Stim.Cli.OffloadBuild.World

/-! ## Steps beside the innermost call -/

section Beside

variable {w w' : World} {own : Option Conn} {live : Option CallId} {k : CallId} {f : Frame}
  {rest : List Frame}

theorem Inv.along (h : Inv w) (hStack : w'.stack = w.stack) (hStaging : w'.staging = w.staging)
    (hResult : w'.result = w.result)
    (hOver : w.stack = [] → Core none none w → Closed w → Core none none w' ∧ Closed w')
    (hCall : ∀ f rest, w.stack = f :: rest → Core f.pc.own f.live w → Stacked f rest w →
      AtPc f w → Core f.pc.own f.live w' ∧ Along f w w') : Inv w' := by
  unfold Inv at h ⊢
  rw [hStack]
  cases hFrames : w.stack with
  | nil =>
      rw [hFrames] at h
      obtain ⟨hCore, hClosed, hStaged⟩ := h
      obtain ⟨hCore', hClosed'⟩ := hOver hFrames hCore hClosed
      refine ⟨hCore', hClosed', ?_⟩
      rw [hStaging, hResult]
      exact hStaged
  | cons f rest =>
      rw [hFrames] at h
      obtain ⟨hCore, hStacked, hAt⟩ := h
      obtain ⟨hCore', hAlong⟩ := hCall f rest hFrames hCore hStacked hAt
      exact ⟨hCore', hAlong.stacked hStacked, hAlong.atPc hAt⟩

/-! ### Events -/

theorem Core.lt_of_listener (h : Core own live w) {c : Conn}
    (hListener : w.listener c = some (.call k)) : k < w.nextCall := by
  by_contra hNot
  exact (h.newCalls k (Nat.le_of_not_lt hNot)).2 c hListener

theorem settles_deliver (c : Conn) (event : Event) : Settles w (w.deliver c event) := by
  unfold World.deliver
  split
  · exact .refl w
  · split
    · exact settles_handle _ event
    · exact .setShared rfl fun hSettled => hSettled
  · split
    · exact .refl w
    · exact .setShared rfl fun hSettled => hSettled

/-- The connection of a `dropped` event is closed, and was the choice's if its call is live. -/
theorem Core.deliver (h : Core own live w) {c : Conn} {event : Event}
    (hCall : event = .dropped → ∀ k, w.listener c = some (.call k) → (w.shared k).job = true →
      (w.shared k).settled = none → live = some k ∧ w.isOpen w.connection = false)
    (hTask : event = .dropped → ∀ k task, w.listener c = some (.reattach k) →
      (w.shared k).reattach = some task → ∀ c', task.stage.conn = some c' → w.isOpen c' = false) :
    Core own live (w.deliver c event) := by
  unfold World.deliver
  split
  · exact h
  · rename_i k hListener
    have hk := h.lt_of_listener hListener
    split
    · exact h.handle hk fun hEq => hCall hEq k hListener
    · exact h.setShared hk (fun hNone => hNone) rfl rfl
  · rename_i k hListener
    split
    · exact h
    · rename_i task hOld
      refine h.setReattach hOld ?_ ?_ ?_
      · exact fun c' _ hConn => ⟨_, rfl, hConn⟩
      · rintro task' c' ⟨⟩ hConn
        exact h.known c' (.inr (.inr (.inr ⟨k, task, hOld, hConn⟩)))
      · rintro task' c' ⟨⟩ hConn hDropped
        rcases List.mem_append.mp hDropped with hEarlier | hNow
        · exact h.early k task c' hOld hConn hEarlier
        · have hEvent : event = .dropped := (List.mem_singleton.mp hNow).symm
          exact hTask hEvent k task hListener hOld c' hConn

theorem early_setShared {q : CallId} {s : Shared} (hSame : s.early = (w.shared q).early) :
    ((w.setShared q s).shared k).early = (w.shared k).early := by
  by_cases hq : k = q
  · rw [hq, shared_setShared_self, hSame]
  · rw [shared_setShared_of_ne hq]

theorem early_handle {q : CallId} (event : Event) :
    ((w.handle q event).shared k).early = (w.shared k).early := by
  cases event with
  | built ok =>
      show (World.shared (ite _ _ _) k).early = _
      split
      · exact early_setShared rfl
      · rfl
  | closed => exact early_setShared rfl
  | dropped =>
      show (World.shared (ite _ _ _) k).early = _
      split
      · unfold World.reattach
        split
        · rfl
        · exact early_setShared rfl
      · exact early_setShared rfl

theorem early_deliver {c : Conn} {event : Event}
    (hMem : .dropped ∈ ((w.deliver c event).shared k).early) :
    .dropped ∈ (w.shared k).early ∨ event = .dropped ∧ w.listener c = some (.call k) := by
  unfold World.deliver at hMem
  split at hMem
  · exact .inl hMem
  · rename_i q hListener
    split at hMem
    · rw [early_handle] at hMem
      exact .inl hMem
    · by_cases hq : k = q
      · rw [hq, shared_setShared_self] at hMem
        rw [hq]
        rcases List.mem_append.mp hMem with hOld | hNow
        · exact .inl hOld
        · exact .inr ⟨(List.mem_singleton.mp hNow).symm, hListener⟩
      · rw [shared_setShared_of_ne hq] at hMem
        exact .inl hMem
  · split at hMem
    · exact .inl hMem
    · rw [early_setShared] at hMem
      · exact .inl hMem
      · rfl

theorem inv_built (h : Inv w) {c : Conn} (ok : Bool) : Inv (w.deliver c (.built ok)) := by
  have hSettles := settles_deliver (w := w) c (.built ok)
  have hCore : ∀ {own live}, Core own live w → Core own live (w.deliver c (.built ok)) :=
    fun h => h.deliver (fun hEq => by cases hEq) (fun hEq => by cases hEq)
  refine h.along hSettles.stack hSettles.staging hSettles.result ?_ ?_
  · intro _ hOld hClosed
    unfold Closed
    rw [hSettles.isOpen, hSettles.connection, hSettles.runnersUp]
    exact ⟨hCore hOld, hClosed⟩
  · refine fun f rest _ hOld _ _ => ⟨hCore hOld, hSettles.along fun _ hMem => ?_⟩
    rcases early_deliver hMem with hEarlier | ⟨hEq, -⟩
    · exact .inl hEarlier
    · cases hEq

/-- A step that closes connections and stops listening, and no more. -/
structure Closes (w w' : World) : Prop where
  isOpen : ∀ c, w'.isOpen c = true → w.isOpen c = true
  listener : ∀ c l, w'.listener c = some l → w.listener c = some l
  nextConn : w'.nextConn = w.nextConn
  connection : w'.connection = w.connection
  runnersUp : w'.runnersUp = w.runnersUp
  cancelled : w'.cancelled = w.cancelled
  shared : w'.shared = w.shared
  nextCall : w'.nextCall = w.nextCall

theorem Closes.shut (h : Closes w w') {c : Conn} (hShut : w.isOpen c = false) :
    w'.isOpen c = false := by
  by_contra hNot
  rw [h.isOpen c (eq_true_of_ne_false hNot)] at hShut
  cases hShut

theorem Closes.closed (h : Closes w w') (hClosed : Closed w) : Closed w' :=
  ⟨by rw [h.connection]; exact h.shut hClosed.1, h.runnersUp.trans hClosed.2⟩

theorem Closes.core (h : Closes w w') (hCore : Core own live w) : Core own live w' := by
  refine hCore.narrow h.isOpen h.listener ?_ ?_ ?_ (.inr h.connection) h.shared h.nextConn
    (Nat.le_of_eq h.nextCall.symm)
  · rw [h.connection, h.runnersUp]
    exact fun _ _ hMine => hMine
  · rw [h.connection, h.runnersUp]
    exact fun _ hMine => hMine
  · rw [h.cancelled]
    exact fun hCancelled => h.closed (hCore.ended hCancelled)

theorem Closes.along (h : Closes w w') (f : Frame) : Along f w w' where
  connection := h.connection
  nextCall := h.nextCall
  runnersUp := by rw [h.runnersUp]; exact fun hNone => hNone
  cancelled := by rw [h.cancelled]; exact fun hTrue => hTrue
  job := by rw [h.shared]; exact fun _ => rfl
  settled := by rw [h.shared]; exact fun _ hSettled => hSettled
  ended := by rw [h.cancelled]; exact .inl
  listening := fun c hl hc => ⟨h.listener c _ hl, h.isOpen c hc⟩
  shut := by rw [h.connection]; exact h.shut
  early := by rw [h.shared]; exact fun _ => .inl

theorem closes_closeAll (cs : List Conn) : Closes w (w.closeAll cs) :=
  ⟨fun _ hc => (closeAll_isOpen hc).1, fun _ _ hl => (closeAll_listener hl).1, rfl, rfl, rfl, rfl,
    rfl, rfl⟩

theorem isOpen_of_shut {c c' : Conn} (hc : (w.shut c).isOpen c' = true) :
    w.isOpen c' = true ∧ c' ≠ c := by
  have hIte : (if c' = c then false else w.isOpen c') = true := by
    rw [← Function.update_apply]
    exact hc
  split at hIte
  · cases hIte
  · rename_i hNe
    exact ⟨hIte, hNe⟩

theorem closes_shut (c : Conn) : Closes w (w.shut c) :=
  ⟨fun _ hc => (isOpen_of_shut hc).1, fun _ _ hl => hl, rfl, rfl, rfl, rfl, rfl, rfl⟩

theorem closes_unlisten (c : Conn) : Closes w (w.listen c none) := by
  refine ⟨fun _ hc => hc, fun c' l hl => ?_, rfl, rfl, rfl, rfl, rfl, rfl⟩
  have hIte : (if c' = c then none else w.listener c') = some l := by
    rw [← Function.update_apply]
    exact hl
  exact (Option.ite_none_left_eq_some.mp hIte).2

theorem isOpen_shut (c : Conn) : (w.shut c).isOpen c = false := by
  by_contra hNot
  exact (isOpen_of_shut (eq_true_of_ne_false hNot)).2 rfl

theorem Along.trans {w'' : World} (h : Along f w w') (h' : Along f w' w'') : Along f w w'' where
  connection := h'.connection.trans h.connection
  nextCall := h'.nextCall.trans h.nextCall
  runnersUp := fun hNone => h'.runnersUp (h.runnersUp hNone)
  cancelled := fun hTrue => h'.cancelled (h.cancelled hTrue)
  job := fun q => (h'.job q).trans (h.job q)
  settled := fun q hSettled => h'.settled q (h.settled q hSettled)
  ended := by
    intro hCancelled
    rcases h'.ended hCancelled with hEarlier | hSettled
    · exact (h.ended hEarlier).imp_right (h'.settled f.id)
    · exact .inr hSettled
  listening := by
    intro c hl hc
    obtain ⟨hl', hc'⟩ := h'.listening c hl hc
    exact h.listening c hl' hc'
  shut := fun hShut => h'.shut (h.shut hShut)
  early := by
    intro hPc hMem
    rcases h'.early hPc hMem with hEarlier | hShut
    · exact (h.early hPc hEarlier).imp_right h'.shut
    · exact .inr hShut

/-- A connection that ends was the choice's, or that of the reattachment that listens to it. -/
theorem inv_endConn (h : Inv w) {c : Conn} (hOpen : w.isOpen c = true) (abnormal : Bool) :
    Inv (w.endConn c abnormal) := by
  have hSettles := settles_deliver (w := w.shut c) c (if abnormal then .dropped else .closed)
  have hCore : ∀ {own live}, Core own live w → Core own live (w.endConn c abnormal) := by
    intro own live hOld
    refine (closes_unlisten c).core (((closes_shut c).core hOld).deliver ?_ ?_)
    · intro _ k hl hJob hNone
      obtain ⟨hLive, hEq⟩ := hOld.listening c k hl hOpen hJob hNone
      refine ⟨hLive, ?_⟩
      show (w.shut c).isOpen w.connection = false
      rw [← hEq]
      exact isOpen_shut c
    · intro _ k task hl hTask c' hConn
      obtain ⟨task', hTask', hConn'⟩ := hOld.attached c k hl hOpen
      have hSame : some task' = some task := hTask'.symm.trans hTask
      cases hSame
      have hEq : c' = c := Option.some.inj (hConn.symm.trans hConn')
      rw [hEq]
      exact isOpen_shut c
  refine h.along hSettles.stack hSettles.staging hSettles.result ?_ ?_
  · intro _ hOld hClosed
    refine ⟨hCore hOld, (closes_unlisten c).closed ?_⟩
    obtain ⟨hShut, hNone⟩ := (closes_shut c).closed hClosed
    unfold Closed
    rw [hSettles.isOpen, hSettles.connection, hSettles.runnersUp]
    exact ⟨hShut, hNone⟩
  · intro f rest _ hOld _ hAt
    refine ⟨hCore hOld, ((closes_shut c).along f).trans ((hSettles.along ?_).trans
      ((closes_unlisten c).along f))⟩
    intro hPc hMem
    rcases early_deliver hMem with hEarlier | ⟨-, hListener⟩
    · exact .inl hEarlier
    · refine .inr ?_
      rw [hSettles.isOpen, hSettles.connection]
      unfold AtPc at hAt
      simp only [hPc] at hAt
      have hEq : c = w.connection := hAt.2.2.1 c hListener hOpen
      rw [hEq]
      exact isOpen_shut w.connection

theorem inv_timeout (h : Inv w) (hStack : w.stack = f :: rest) (hPc : f.pc = .outcome) :
    Inv (w.settle f.id false) := by
  have hSettles := settles_settle (w := w) f.id false
  refine h.along hSettles.stack hSettles.staging hSettles.result ?_ ?_
  · intro hNil
    rw [hStack] at hNil
    cases hNil
  · intro f' rest' hStack' hCore hStacked _
    rw [hStack] at hStack'
    cases hStack'
    refine ⟨hCore.settle hStacked.id false, hSettles.along fun hStart => ?_⟩
    rw [hPc] at hStart
    cases hStart

/-! ### Cancellation -/

theorem settles_settleAll (frames : List Frame) : ∀ w, Settles w (w.settleAll frames) := by
  induction frames with
  | nil => exact .refl
  | cons f frames ih => exact fun w => (settles_settle f.id false).trans (ih _)

theorem Core.settleAll (frames : List Frame) : ∀ {w}, Core own live w →
    (∀ f ∈ frames, f.id < w.nextCall) → Core own live (w.settleAll frames) := by
  induction frames with
  | nil => exact fun h _ => h
  | cons f frames ih =>
      intro w h hIds
      exact ih (h.settle (hIds f (List.mem_cons_self ..)) false)
        fun g hg => hIds g (List.mem_cons_of_mem _ hg)

theorem shared_settleAll (frames : List Frame) : ∀ {w w' : World}, w'.shared = w.shared →
    (w'.settleAll frames).shared = (w.settleAll frames).shared := by
  induction frames with
  | nil => exact fun h => h
  | cons f frames ih =>
      intro w w' hShared
      refine ih ?_
      show Function.update w'.shared f.id _ = Function.update w.shared f.id _
      rw [hShared]

/-- The first listeners of the signal. -/
def World.abort (w : World) : World :=
  { w with
    cancelled := true
    isOpen := fun c => w.isOpen c && !w.aborts c
    listener := fun c => if w.aborts c then none else w.listener c }

theorem cancel_eq (w : World) : w.cancel =
    if w.stack = [] then w.abort else (w.abort.settleAll w.stack).closeOffload := rfl

theorem isOpen_of_abort {c : Conn} (hc : w.abort.isOpen c = true) : w.isOpen c = true :=
  (Bool.and_eq_true_iff.mp hc).1

theorem listener_of_abort {c : Conn} {l : Listener} (hl : w.abort.listener c = some l) :
    w.listener c = some l :=
  (Option.ite_none_left_eq_some.mp hl).2

theorem inv_cancel (h : Inv w) : Inv w.cancel := by
  rw [cancel_eq]
  split
  · -- no call is left: the reattachments close theirs
    rename_i hNil
    refine h.along rfl rfl rfl ?_ ?_
    · intro _ hCore hClosed
      have hClosed' : Closed w.abort := by
        refine ⟨?_, hClosed.2⟩
        by_contra hNot
        have hOpen : w.isOpen w.connection = true := isOpen_of_abort (eq_true_of_ne_false hNot)
        rw [hClosed.1] at hOpen
        cases hOpen
      exact ⟨hCore.narrow (fun _ => isOpen_of_abort) (fun _ _ => listener_of_abort)
        (fun _ _ hMine => hMine) (fun _ hMine => hMine) (fun _ => hClosed') (.inl rfl) rfl rfl
        (Nat.le_refl _), hClosed'⟩
    · intro f rest hStack
      rw [hNil] at hStack
      cases hStack
  · -- every call is settled and the choice is closed
    rename_i hCalls
    have hSettles := settles_settleAll w.stack w.abort
    have hOld := settles_settleAll w.stack w
    have hShared : (w.abort.settleAll w.stack).shared = (w.settleAll w.stack).shared :=
      shared_settleAll w.stack rfl
    have hOpen : ∀ c, (w.abort.settleAll w.stack).closeOffload.isOpen c = true →
        w.isOpen c = true ∧ c ∉ w.connection :: w.runnersUp := by
      intro c hc
      have hParts := closeAll_isOpen hc
      rw [hSettles.isOpen, hSettles.connection, hSettles.runnersUp] at hParts
      exact ⟨isOpen_of_abort hParts.1, hParts.2⟩
    have hListener : ∀ c l, (w.abort.settleAll w.stack).closeOffload.listener c = some l →
        w.listener c = some l := by
      intro c l hl
      have hPart := (closeAll_listener hl).1
      rw [hSettles.listener] at hPart
      exact listener_of_abort hPart
    have hClosed : Closed (w.abort.settleAll w.stack).closeOffload :=
      ⟨isOpen_closeAll (List.mem_cons_self ..), rfl⟩
    refine h.along hSettles.stack hSettles.staging hSettles.result
      (fun hNil => absurd hNil hCalls) ?_
    intro f rest hStack hCore hStacked hAt
    have hIds : ∀ g ∈ w.stack, g.id < w.nextCall := by
      rw [hStack]
      intro g hg
      rcases List.mem_cons.mp hg with rfl | hRest
      · exact hStacked.id
      · exact (hStacked.waiting g hRest).id
    constructor
    · refine (hCore.settleAll w.stack hIds).narrow ?_ ?_ ?_ ?_ (fun _ => hClosed)
        (.inr (hSettles.connection.trans hOld.connection.symm)) hShared
        (hSettles.nextConn.trans hOld.nextConn.symm)
        (Nat.le_of_eq (hOld.nextCall.trans hSettles.nextCall.symm))
      · rw [hOld.isOpen]
        exact fun c hc => (hOpen c hc).1
      · rw [hOld.listener]
        exact hListener
      · rw [hOld.connection, hOld.runnersUp]
        rintro c hc (hMine | hMine | hMine)
        · exact absurd (hMine ▸ List.mem_cons_self ..) (hOpen c hc).2
        · exact absurd (List.mem_cons_of_mem _ hMine) (hOpen c hc).2
        · exact .inr (.inr hMine)
      · rw [hOld.connection, hOld.runnersUp]
        rintro c (hMine | hMine | hMine)
        · exact .inl (hMine.trans hSettles.connection)
        · cases hMine
        · exact .inr (.inr hMine)
    · refine ⟨hSettles.connection, hSettles.nextCall, fun _ => rfl, fun _ => ?_, hSettles.job,
        hSettles.settled, fun _ => ?_, fun c hl hc => ⟨hListener c _ hl, (hOpen c hc).1⟩,
        fun _ => hClosed.1, fun _ _ => .inr hClosed.1⟩
      · exact hSettles.cancelled
      · refine .inr ?_
        show ((w.abort.settleAll w.stack).shared f.id).settled ≠ none
        rw [hStack]
        exact (settles_settleAll rest _).settled f.id settled_settle

end Beside

/-! ## Steps of a reattachment -/

section Reattaching

variable {w : World} {own : Option Conn} {live : Option CallId} {k : CallId} {task : Reattach}
  {stage : ReattachStage} {c : Conn}

theorem settles_setStage (task : Reattach) (stage : ReattachStage) :
    Settles w (w.setStage k task stage) := .setShared rfl fun hSettled => hSettled

theorem early_setStage {q : CallId} :
    ((w.setStage k task stage).shared q).early = (w.shared q).early := early_setShared rfl

theorem Settles.along_of_early {w' : World} (h : Settles w w') (f : Frame)
    (hEarly : (w'.shared f.id).early = (w.shared f.id).early) : Along f w w' :=
  h.along fun _ hMem => .inl (hEarly ▸ hMem)

/-- A step of a reattachment, seen from the calls. -/
theorem Inv.beside {w' : World} (h : Inv w) (hStack : w'.stack = w.stack)
    (hStaging : w'.staging = w.staging) (hResult : w'.result = w.result)
    (hCore : ∀ own live, Core own live w → Core own live w')
    (hAlong : ∀ f, Along f w w') : Inv w' :=
  h.along hStack hStaging hResult
    (fun _ hOld hClosed => ⟨hCore _ _ hOld, (hAlong ⟨0, 0, false, false, false, .entry⟩).closed
      hClosed⟩)
    fun f _ _ hOld _ _ => ⟨hCore _ _ hOld, hAlong f⟩

theorem inv_setStage (h : Inv w) (hTask : (w.shared k).reattach = some task)
    (hKept : ∀ c, w.isOpen c = true → task.stage.conn = some c → stage.conn = some c)
    (hSame : ∀ c, stage.conn = some c → task.stage.conn = some c) : Inv (w.setStage k task stage) :=
  h.beside rfl rfl rfl (fun _ _ hCore => hCore.setStage hTask hKept hSame)
    fun f => (settles_setStage task stage).along_of_early f early_setStage

/-- The reattachment closes its connection. -/
theorem inv_closeStage (h : Inv w) (hTask : (w.shared k).reattach = some task)
    (hConn : task.stage.conn = some c) (hNone : stage.conn = none) :
    Inv ((w.closeAll [c]).setStage k task stage) := by
  refine h.beside rfl rfl rfl ?_ ?_
  · intro own live hCore
    refine ((closes_closeAll [c]).core hCore).setStage hTask ?_ ?_
    · intro c' hc hConn'
      cases hConn.symm.trans hConn'
      exact absurd (List.mem_singleton_self c) (closeAll_isOpen hc).2
    · intro c' hConn'
      rw [hNone] at hConn'
      cases hConn'
  · exact fun f => ((closes_closeAll [c]).along f).trans
      ((settles_setStage task stage).along_of_early f early_setStage)

theorem conn_turn (late : Bool) : (w.turn k late).conn = none := by
  unfold World.turn
  split <;> rfl

theorem inv_answered (h : Inv w) (hTask : (w.shared k).reattach = some task)
    (hConn : task.stage.conn = some c) (reply : Except (AttachError × Bool) (Option Bool)) :
    Inv (w.answered k task c reply) := by
  unfold World.answered
  split
  · exact inv_closeStage h hTask hConn rfl
  · split
    · refine inv_setStage h hTask ?_ ?_
      · exact fun c' _ hConn' => hConn.symm.trans hConn'
      · exact fun c' hConn' => hConn.trans hConn'
    · exact inv_closeStage h hTask hConn (conn_turn _)
    · exact inv_closeStage h hTask hConn rfl
    · exact inv_closeStage h hTask hConn rfl

/-- A connection is opened that nothing names yet. -/
theorem Core.openClosed (h : Core own live w) :
    Core own live (w.openConn.closeAll [w.nextConn]) := by
  have hOpen : ∀ c, (w.openConn.closeAll [w.nextConn]).isOpen c = true → w.isOpen c = true := by
    intro c hc
    obtain ⟨hNew, hNot⟩ := closeAll_isOpen hc
    have hNe : c ≠ w.nextConn := fun hEq => hNot (List.mem_singleton.mpr hEq)
    rw [← Function.update_of_ne hNe true w.isOpen]
    exact hNew
  have hShut : ∀ c, w.isOpen c = false →
      (w.openConn.closeAll [w.nextConn]).isOpen c = false := by
    intro c hc
    by_contra hNot
    rw [hOpen c (eq_true_of_ne_false hNot)] at hc
    cases hc
  have hListener : ∀ c l, (w.openConn.closeAll [w.nextConn]).listener c = some l →
      w.listener c = some l := fun c l hl => (closeAll_listener hl).1
  refine ⟨fun c hc => h.held c (hOpen c hc), fun c hc => Nat.lt_succ_of_lt (h.known c hc),
    fun hc => ⟨hShut _ (h.ended hc).1, (h.ended hc).2⟩, ?_, ?_, ?_, ?_, ?_, ?_⟩
  · intro q task hTask hNone
    obtain ⟨hLive, hClosed⟩ := h.unsettled q task hTask hNone
    exact ⟨hLive, hShut _ hClosed⟩
  · exact fun c q hl hc => h.listening c q (hListener c _ hl) (hOpen c hc)
  · exact fun c q hl hc => h.attached c q (hListener c _ hl) (hOpen c hc)
  · exact fun q task c hTask hConn hMem => hShut c (h.early q task c hTask hConn hMem)
  · intro c hc
    obtain ⟨hClosed, hNone⟩ := h.newConns c (Nat.le_of_succ_le hc)
    refine ⟨hShut c hClosed, Option.eq_none_iff_forall_ne_some.mpr fun l hl => ?_⟩
    rw [hListener c l hl] at hNone
    cases hNone
  · intro q hq
    obtain ⟨hNew, hNone⟩ := h.newCalls q hq
    exact ⟨hNew, fun c hl => hNone c (hListener c _ hl)⟩

/-- A new connection that the core names opens. -/
theorem Core.reopen {w' : World} (h : Core own live w) (hNamed : Named own w c)
    (hNe : c ≠ w.connection) (hNone : w.listener c = none)
    (hEarly : ∀ q task, (w.shared q).reattach = some task → task.stage.conn = some c →
      .dropped ∉ task.early) (hOpen : ∀ c', w'.isOpen c' = true → c' = c ∨ w.isOpen c' = true)
    (hListener : ∀ c' l, w'.listener c' = some l → w.listener c' = some l ∨ c' = c ∧
      ∃ q task, l = .reattach q ∧ (w.shared q).reattach = some task ∧ task.stage.conn = some c)
    (hConnection : w'.connection = w.connection) (hRunners : w'.runnersUp = w.runnersUp)
    (hCancelled : w'.cancelled = w.cancelled) (hShared : w'.shared = w.shared)
    (hConns : w'.nextConn = w.nextConn) (hCalls : w'.nextCall = w.nextCall) : Core own live w' := by
  have hNames : ∀ c', Named own w' c' ↔ Named own w c' := by
    intro c'
    unfold Named
    rw [hConnection, hRunners, hShared]
  have hShut : ∀ c', c' ≠ c → w.isOpen c' = false → w'.isOpen c' = false := by
    intro c' hOther hc
    by_contra hNot
    rcases hOpen c' (eq_true_of_ne_false hNot) with hEq | hOld
    · exact hOther hEq
    · rw [hc] at hOld
      cases hOld
  refine ⟨?_, ?_, ?_, ?_, ?_, ?_, ?_, ?_, ?_⟩
  · intro c' hc
    rw [hNames]
    rcases hOpen c' hc with rfl | hOld
    · exact hNamed
    · exact h.held c' hOld
  · intro c' hc
    rw [hConns]
    exact h.known c' ((hNames c').mp hc)
  · rw [hCancelled, hConnection, hRunners]
    intro hTrue
    exact ⟨hShut _ (Ne.symm hNe) (h.ended hTrue).1, (h.ended hTrue).2⟩
  · rw [hShared, hConnection]
    intro q task hTask hUnsettled
    obtain ⟨hLive, hClosed⟩ := h.unsettled q task hTask hUnsettled
    exact ⟨hLive, hShut _ (Ne.symm hNe) hClosed⟩
  · rw [hShared, hConnection]
    intro c' q hl hc hJob hUnsettled
    rcases hListener c' _ hl with hOld | ⟨-, q', task, hEq, -⟩
    · rcases hOpen c' hc with rfl | hOldOpen
      · rw [hNone] at hOld
        cases hOld
      · exact h.listening c' q hOld hOldOpen hJob hUnsettled
    · cases hEq
  · rw [hShared]
    intro c' q hl hc
    rcases hListener c' _ hl with hOld | ⟨rfl, q', task, hEq, hTask, hConn⟩
    · rcases hOpen c' hc with rfl | hOldOpen
      · rw [hNone] at hOld
        cases hOld
      · exact h.attached c' q hOld hOldOpen
    · cases hEq
      exact ⟨task, hTask, hConn⟩
  · rw [hShared]
    intro q task c' hTask hConn hMem
    by_cases hEq : c' = c
    · exact absurd hMem (hEarly q task hTask (hEq ▸ hConn))
    · exact hShut c' hEq (h.early q task c' hTask hConn hMem)
  · rw [hConns]
    intro c' hc
    obtain ⟨hClosed, hFree⟩ := h.newConns c' hc
    have hOther : c' ≠ c := by
      rintro rfl
      exact absurd (h.known c' hNamed) (Nat.not_lt.mpr hc)
    refine ⟨hShut c' hOther hClosed, Option.eq_none_iff_forall_ne_some.mpr fun l hl => ?_⟩
    rcases hListener c' l hl with hOld | ⟨hEq, -⟩
    · rw [hFree] at hOld
      cases hOld
    · exact hOther hEq
  · rw [hShared, hCalls]
    intro q hq
    obtain ⟨hNew, hFree⟩ := h.newCalls q hq
    refine ⟨hNew, fun c' hl => ?_⟩
    rcases hListener c' _ hl with hOld | ⟨-, q', task, hEq, -⟩
    · exact hFree c' hOld
    · cases hEq

theorem isOpen_openConn {c : Conn} (hc : w.openConn.isOpen c = true) :
    c = w.nextConn ∨ w.isOpen c = true := by
  by_cases hEq : c = w.nextConn
  · exact .inl hEq
  · refine .inr ?_
    rw [← Function.update_of_ne hEq true w.isOpen]
    exact hc

/-- Nothing is open that was not, or only a connection that nothing named. -/
theorem Core.along_open {w' : World} {f : Frame} (h : Core own live w)
    (hOpen : ∀ c, w'.isOpen c = true → c = w.nextConn ∨ w.isOpen c = true)
    (hListener : ∀ c q, w'.listener c = some (.call q) → w.listener c = some (.call q))
    (hConnection : w'.connection = w.connection) (hRunners : w'.runnersUp = w.runnersUp)
    (hCancelled : w'.cancelled = w.cancelled) (hCalls : w'.nextCall = w.nextCall)
    (hJob : ∀ q, (w'.shared q).job = (w.shared q).job)
    (hSettled : ∀ q, (w'.shared q).settled = (w.shared q).settled)
    (hEarly : (w'.shared f.id).early = (w.shared f.id).early) : Along f w w' where
  connection := hConnection
  nextCall := hCalls
  runnersUp := by rw [hRunners]; exact fun hNone => hNone
  cancelled := by rw [hCancelled]; exact fun hTrue => hTrue
  job := hJob
  settled := fun q => by rw [hSettled]; exact fun h => h
  ended := by rw [hCancelled]; exact .inl
  listening := by
    intro c hl hc
    have hOld := hListener c f.id hl
    refine ⟨hOld, (hOpen c hc).resolve_left ?_⟩
    rintro rfl
    rw [(h.newConns _ (Nat.le_refl _)).2] at hOld
    cases hOld
  shut := by
    intro hShut
    by_contra hNot
    rw [hConnection] at hNot
    rcases hOpen _ (eq_true_of_ne_false hNot) with hEq | hOld
    · exact absurd (h.known _ (.inl rfl)) (by rw [hEq]; exact Nat.lt_irrefl _)
    · rw [hShut] at hOld
      cases hOld
  early := by rw [hEarly]; exact fun _ => .inl

theorem inv_opened (h : Inv w) (hTask : (w.shared k).reattach = some task)
    (hConn : task.stage.conn = none) (hNone : stage.conn = none) :
    Inv ((w.openConn.closeAll [w.nextConn]).setStage k task stage) := by
  have hCore : ∀ own live, Core own live w →
      Core own live ((w.openConn.closeAll [w.nextConn]).setStage k task stage) := by
    intro own live hOld
    refine hOld.openClosed.setStage hTask ?_ ?_
    · intro c _ hEq
      rw [hConn] at hEq
      cases hEq
    · intro c hEq
      rw [hNone] at hEq
      cases hEq
  have hAlong : ∀ {own live} f, Core own live w →
      Along f w (w.openConn.closeAll [w.nextConn]) := by
    intro own live f hOld
    exact hOld.along_open (fun c hc => isOpen_openConn (closeAll_isOpen hc).1)
      (fun c q hl => (closeAll_listener hl).1) rfl rfl rfl rfl (fun _ => rfl) (fun _ => rfl) rfl
  have hStage : ∀ f, Along f (w.openConn.closeAll [w.nextConn])
      ((w.openConn.closeAll [w.nextConn]).setStage k task stage) :=
    fun f => (settles_setStage task stage).along_of_early f early_setStage
  exact h.along rfl rfl rfl
    (fun _ hOld hClosed => ⟨hCore _ _ hOld,
      ((hAlong ⟨0, 0, false, false, false, .entry⟩ hOld).trans (hStage _)).closed hClosed⟩)
    fun f _ _ hOld _ _ => ⟨hCore _ _ hOld, (hAlong f hOld).trans (hStage f)⟩

/-- The new connection is the reattachment's, which collects its events from the start. -/
theorem inv_listening (h : Inv w) (hTask : (w.shared k).reattach = some task)
    (hConn : task.stage.conn = none) (hStage : stage.conn = some w.nextConn) :
    Inv ((w.openConn.listen w.nextConn (some (.reattach k))).setStage k
      { task with early := [] } stage) := by
  have hCore : ∀ own live, Core own live w →
      Core own live ((w.openConn.listen w.nextConn (some (.reattach k))).setStage k
        { task with early := [] } stage) := by
    intro own live hOld
    have hStaged : Core own live ((w.openConn.closeAll [w.nextConn]).setStage k
        { task with early := [] } stage) := by
      refine hOld.openClosed.setReattach hTask ?_ ?_ ?_
      · intro c _ hEq
        rw [hConn] at hEq
        cases hEq
      · rintro task' c ⟨⟩ hEq
        cases hStage.symm.trans hEq
        exact Nat.lt_succ_self _
      · rintro task' c ⟨⟩ _ hMem
        cases hMem
    have hReattach : (((w.openConn.closeAll [w.nextConn]).setStage k { task with early := [] }
        stage).shared k).reattach = some { task with stage := stage, early := [] } := by
      unfold World.setStage
      rw [shared_setShared_self]
    refine hStaged.reopen (c := w.nextConn) (.inr (.inr (.inr ⟨k, _, hReattach, hStage⟩))) ?_ ?_ ?_
      ?_ ?_ rfl rfl rfl rfl rfl rfl
    · intro hEq
      have hChoice : w.nextConn = w.connection := hEq
      exact absurd (hOld.known _ (.inl rfl)) (by rw [← hChoice]; exact Nat.lt_irrefl _)
    · exact if_pos (List.mem_singleton_self _)
    · intro q task' hq hEq hMem
      by_cases hk : q = k
      · rw [hk, hReattach] at hq
        cases hq
        cases hMem
      · rw [World.setStage, shared_setShared_of_ne hk] at hq
        have hLt : w.nextConn < w.nextConn :=
          hOld.known _ (.inr (.inr (.inr ⟨q, task', hq, hEq⟩)))
        exact absurd hLt (Nat.lt_irrefl _)
    · intro c hc
      rcases isOpen_openConn hc with hEq | hOpen
      · exact .inl hEq
      · by_cases hEq : c = w.nextConn
        · exact .inl hEq
        · refine .inr ?_
          have hNew : w.openConn.isOpen c = true := hc
          simp [World.setStage, World.setShared, World.closeAll, hNew, hEq]
    · intro c l hl
      have hIte : (if c = w.nextConn then some (Listener.reattach k) else w.listener c) =
          some l := by
        rw [← Function.update_apply]
        exact hl
      split at hIte
      · rename_i hEq
        cases hIte
        exact .inr ⟨hEq, k, _, rfl, hReattach, hStage⟩
      · rename_i hNe
        refine .inl ?_
        show (if c ∈ [w.nextConn] then none else w.listener c) = some l
        rw [if_neg (fun hMem => hNe (List.mem_singleton.mp hMem))]
        exact hIte
  have hAlong : ∀ {own live} f, Core own live w →
      Along f w ((w.openConn.listen w.nextConn (some (.reattach k))).setStage k
        { task with early := [] } stage) := by
    intro own live f hOld
    have hSettles := settles_setStage (k := k) (w := w) { task with early := [] } stage
    refine hOld.along_open (fun c hc => isOpen_openConn hc) ?_ rfl rfl rfl rfl hSettles.job ?_ ?_
    · intro c q hl
      have hIte : (if c = w.nextConn then some (Listener.reattach k) else w.listener c) =
          some (.call q) := by
        rw [← Function.update_apply]
        exact hl
      split at hIte
      · cases hIte
      · exact hIte
    · intro q
      by_cases hq : q = k
      · rw [hq]
        show ((World.setShared _ k _).shared k).settled = _
        rw [shared_setShared_self]
        rfl
      · show ((World.setShared _ k _).shared q).settled = _
        rw [shared_setShared_of_ne hq]
        rfl
    · show ((World.setShared _ k _).shared f.id).early = _
      exact early_setShared rfl
  exact h.along rfl rfl rfl
    (fun _ hOld hClosed => ⟨hCore _ _ hOld,
      (hAlong ⟨0, 0, false, false, false, .entry⟩ hOld).closed hClosed⟩)
    fun f _ _ hOld _ _ => ⟨hCore _ _ hOld, hAlong f hOld⟩

/-- The reattachment is over without a connection of its own that is open. -/
theorem inv_dropReattach (h : Inv w) (hTask : (w.shared k).reattach = some task)
    (hClosed : ∀ c, task.stage.conn = some c → w.isOpen c = false) :
    Inv (w.setShared k { w.shared k with reattach := none }) := by
  have hSettles : Settles w (w.setShared k { w.shared k with reattach := none }) :=
    .setShared rfl fun hSettled => hSettled
  refine h.beside rfl rfl rfl ?_ fun f => hSettles.along_of_early f (early_setShared rfl)
  intro own live hCore
  refine hCore.setReattach hTask ?_ (fun _ _ hNone => by cases hNone)
    (fun _ _ hNone => by cases hNone)
  intro c hc hConn
  rw [hClosed c hConn] at hc
  cases hc

theorem Inv.lt_of_reattach (h : Inv w) (hTask : (w.shared k).reattach = some task) :
    k < w.nextCall := by
  unfold Inv at h
  cases hStack : w.stack with
  | nil =>
      rw [hStack] at h
      exact h.1.lt_of_reattach hTask
  | cons f rest =>
      rw [hStack] at h
      exact h.1.lt_of_reattach hTask

theorem inv_settle (h : Inv w) (hk : k < w.nextCall) (ok : Bool) : Inv (w.settle k ok) :=
  h.beside rfl rfl rfl (fun _ _ hCore => hCore.settle hk ok)
    fun f => (settles_settle k ok).along_of_early f (early_setShared rfl)

theorem inv_jobLost (h : Inv w) (hk : k < w.nextCall) :
    Inv (w.setShared k { w.shared k with jobLost := true }) := by
  have hSettles : Settles w (w.setShared k { w.shared k with jobLost := true }) :=
    .setShared rfl fun hSettled => hSettled
  exact h.beside rfl rfl rfl (fun _ _ hCore => hCore.setShared hk (fun hNone => hNone) rfl rfl)
    fun f => hSettles.along_of_early f (early_setShared rfl)

theorem inv_closeAll (h : Inv w) (cs : List Conn) : Inv (w.closeAll cs) :=
  h.beside rfl rfl rfl (fun _ _ hCore => (closes_closeAll cs).core hCore)
    fun f => (closes_closeAll cs).along f

/-- The connection of a reattachment becomes the choice's. -/
theorem Core.store (h : Core own live w) (hTask : (w.shared k).reattach = some task)
    (hConn : task.stage.conn = some c) (hSettled : (w.shared k).settled = none)
    (hCancelled : w.cancelled = false) :
    Core own live ({ w.setShared k { w.shared k with reattach := none } with
      connection := c }.listen c (some (.call k))) := by
  obtain ⟨hLive, hShut⟩ := h.unsettled k task hTask hSettled
  have hOther : ∀ {q}, q ≠ k →
      (w.setShared k { w.shared k with reattach := none }).shared q = w.shared q :=
    fun hq => shared_setShared_of_ne hq
  have hSelf : ((w.setShared k { w.shared k with reattach := none }).shared k).reattach = none := by
    rw [shared_setShared_self]
  have hUnsettled : ∀ q,
      ((w.setShared k { w.shared k with reattach := none }).shared q).settled =
        (w.shared q).settled := by
    intro q
    by_cases hq : q = k
    · rw [hq, shared_setShared_self]
    · rw [hOther hq]
  have hJobs : ∀ q, ((w.setShared k { w.shared k with reattach := none }).shared q).job =
      (w.shared q).job := by
    intro q
    by_cases hq : q = k
    · rw [hq, shared_setShared_self]
    · rw [hOther hq]
  have hTasks : ∀ {q task'},
      ((w.setShared k { w.shared k with reattach := none }).shared q).reattach = some task' →
        q ≠ k ∧ (w.shared q).reattach = some task' := by
    intro q task' hq
    by_cases hEq : q = k
    · rw [hEq, hSelf] at hq
      cases hq
    · rw [hOther hEq] at hq
      exact ⟨hEq, hq⟩
  have hListener : ∀ {c' l}, Function.update w.listener c (some (.call k)) c' = some l →
      c' = c ∧ l = .call k ∨ c' ≠ c ∧ w.listener c' = some l := by
    intro c' l hl
    rw [Function.update_apply] at hl
    split at hl
    · cases hl
      exact .inl ⟨‹_›, rfl⟩
    · exact .inr ⟨‹_›, hl⟩
  refine ⟨?_, ?_, ?_, ?_, ?_, ?_, ?_, ?_, ?_⟩
  · intro c' hc
    rcases h.held c' hc with hMine | hMine | hMine | ⟨q, task', hq, hConn'⟩
    · have hOpen : w.isOpen c' = true := hc
      rw [hMine, hShut] at hOpen
      cases hOpen
    · exact .inr (.inl hMine)
    · exact .inr (.inr (.inl hMine))
    · by_cases hEq : q = k
      · rw [hEq, hTask] at hq
        cases hq
        exact .inl (Option.some.inj (hConn'.symm.trans hConn))
      · exact .inr (.inr (.inr ⟨q, task', by rw [← hq]; exact congrArg _ (hOther hEq), hConn'⟩))
  · rintro c' (hMine | hMine | hMine | ⟨q, task', hq, hConn'⟩)
    · rw [hMine]
      exact h.known c (.inr (.inr (.inr ⟨k, task, hTask, hConn⟩)))
    · exact h.known c' (.inr (.inl hMine))
    · exact h.known c' (.inr (.inr (.inl hMine)))
    · exact h.known c' (.inr (.inr (.inr ⟨q, task', (hTasks hq).2, hConn'⟩)))
  · intro hTrue
    exact absurd (hCancelled.symm.trans hTrue) (by simp)
  · intro q task' hq hNone
    obtain ⟨hNe, hOld⟩ := hTasks hq
    have hLive' := (h.unsettled q task' hOld ((hUnsettled q).symm.trans hNone)).1
    rw [hLive] at hLive'
    exact absurd (Option.some.inj hLive').symm hNe
  · intro c' q hl hc hJob hNone
    rcases hListener hl with ⟨hEq, hCall⟩ | ⟨hNe, hOld⟩
    · cases hCall
      exact ⟨hLive, hEq⟩
    · have hChoice := (h.listening c' q hOld hc ((hJobs q).symm.trans hJob)
        ((hUnsettled q).symm.trans hNone)).2
      have hOpen : w.isOpen c' = true := hc
      rw [hChoice, hShut] at hOpen
      cases hOpen
  · intro c' q hl hc
    rcases hListener hl with ⟨-, hCall⟩ | ⟨hNe, hOld⟩
    · cases hCall
    · obtain ⟨task', hq, hConn'⟩ := h.attached c' q hOld hc
      have hEq : q ≠ k := by
        rintro rfl
        rw [hTask] at hq
        cases hq
        exact hNe (Option.some.inj (hConn'.symm.trans hConn))
      exact ⟨task', by rw [← hq]; exact congrArg _ (hOther hEq), hConn'⟩
  · intro q task' c' hq hConn' hMem
    exact h.early q task' c' (hTasks hq).2 hConn' hMem
  · intro c' hc
    obtain ⟨hClosed, hFree⟩ := h.newConns c' hc
    refine ⟨hClosed, Option.eq_none_iff_forall_ne_some.mpr fun l hl => ?_⟩
    rcases hListener hl with ⟨hEq, -⟩ | ⟨-, hOld⟩
    · have hLt := h.known c (.inr (.inr (.inr ⟨k, task, hTask, hConn⟩)))
      exact absurd (hEq ▸ hc) (Nat.not_le.mpr hLt)
    · rw [hFree] at hOld
      cases hOld
  · intro q hq
    have hk := h.lt_of_reattach hTask
    have hNe : q ≠ k := fun hEq => absurd (hEq ▸ hq) (Nat.not_le.mpr hk)
    obtain ⟨hNew, hFree⟩ := h.newCalls q hq
    refine ⟨(hOther hNe).trans hNew, fun c' hl => ?_⟩
    rcases hListener hl with ⟨-, hCall⟩ | ⟨-, hOld⟩
    · cases hCall
      exact hNe rfl
    · exact hFree c' hOld

/-- The world in which the connection of a reattachment is the choice's. -/
def stored (w : World) (k : CallId) (c : Conn) (outcome : Option Bool) : World :=
  let w := { w.setShared k { w.shared k with reattach := none } with
    connection := c }.listen c (some (.call k))
  match outcome with
  | none => w
  | some ok => w.settle k ok

/-- A reattachment that nothing has settled belongs to the call that awaits its outcome. -/
theorem inv_stored (h : Inv w) (hTask : (w.shared k).reattach = some task)
    (hConn : task.stage.conn = some c) (hSettled : (w.shared k).settled = none)
    (outcome : Option Bool) : Inv ((stored w k c outcome).handleAll k task.early) := by
  unfold Inv at h
  cases hStack : w.stack with
  | nil =>
      rw [hStack] at h
      cases (h.1.unsettled k task hTask hSettled).1
  | cons f rest =>
      rw [hStack] at h
      obtain ⟨hCore, hStacked, hAt⟩ := h
      have hLive := (hCore.unsettled k task hTask hSettled).1
      have hk := hCore.lt_of_reattach hTask
      -- the call awaits its outcome, and has not been cancelled
      unfold Frame.live at hLive
      split at hLive
      case isFalse => cases hLive
      rename_i hPc
      cases hLive
      unfold AtPc at hAt
      simp only [hPc] at hAt
      have hCancelled : w.cancelled = false := by
        by_contra hNot
        exact hAt.2 (eq_true_of_ne_false hNot) hSettled
      have hShut : .dropped ∈ task.early → w.isOpen c = false :=
        hCore.early f.id task c hTask hConn
      have hStored := hCore.store hTask hConn hSettled hCancelled
      have hSettles : Settles
          ({ w.setShared f.id { w.shared f.id with reattach := none } with
            connection := c }.listen c (some (.call f.id))) (stored w f.id c outcome) := by
        unfold stored
        cases outcome with
        | none => exact .refl _
        | some ok => exact settles_settle f.id ok
      have hCore' : Core f.pc.own f.live (stored w f.id c outcome) := by
        unfold stored
        cases outcome with
        | none => exact hStored
        | some ok => exact hStored.settle hk ok
      obtain ⟨hHandled, hHandles⟩ := hCore'.handleAll (k := f.id) task.early
        (by rw [hSettles.nextCall]; exact hk) (by
          intro hMem _ _
          refine ⟨if_pos hPc, ?_⟩
          rw [hSettles.isOpen, hSettles.connection]
          exact hShut hMem)
      have hAll := hSettles.trans hHandles
      have hDrops : Settles w (w.setShared f.id { w.shared f.id with reattach := none }) :=
        .setShared rfl fun hOld => hOld
      have hFrame : Stacked f rest ({ w.setShared f.id { w.shared f.id with reattach := none } with
          connection := c }.listen c (some (.call f.id))) :=
        (hDrops.stacked hStacked).of_shared (Nat.le_refl _) rfl
      unfold Inv
      rw [hAll.stack.trans hStack]
      refine ⟨hHandled, hAll.stacked hFrame, ?_⟩
      unfold AtPc
      simp only [hPc]
      refine ⟨hAt.1, fun hTrue => ?_⟩
      rw [hAll.cancelled] at hTrue
      exact absurd (hCancelled.symm.trans hTrue) (by simp)

theorem inv_reattached (h : Inv w) {result : Resumed} (hTask : (w.shared k).reattach = some task)
    (hStage : task.stage = .resumed result) : Inv (w.reattached k task result) := by
  have hk := h.lt_of_reattach hTask
  have hNothing : task.stage.conn = none →
      Inv (w.setShared k { w.shared k with reattach := none }) := by
    intro hNone
    refine inv_dropReattach h hTask fun c hConn => ?_
    rw [hNone] at hConn
    cases hConn
  show Inv (ite _ _ _)
  split
  · cases result with
    | connection c outcome =>
        -- the call was settled while the job was resumed
        refine inv_dropReattach (inv_closeAll h [c]) hTask fun c' hConn => ?_
        rw [hStage] at hConn
        cases hConn
        exact isOpen_closeAll (List.mem_singleton_self c)
    | lost => exact hNothing (by rw [hStage]; rfl)
    | failure => exact hNothing (by rw [hStage]; rfl)
  · rename_i hNot
    have hSettled : (w.shared k).settled = none := by
      rw [shared_setShared_self] at hNot
      simpa using hNot
    cases result with
    | connection c outcome =>
        have hConn : task.stage.conn = some c := by rw [hStage]; rfl
        cases outcome with
        | none => exact inv_stored h hTask hConn hSettled none
        | some ok => exact inv_stored h hTask hConn hSettled (some ok)
    | lost => exact inv_settle (inv_jobLost (hNothing (by rw [hStage]; rfl)) hk) hk false
    | failure => exact inv_settle (hNothing (by rw [hStage]; rfl)) hk false

theorem inv_unconnected (h : Inv w) (hTask : (w.shared k).reattach = some task)
    (hOld : task.stage.conn = none) (hNew : stage.conn = none) : Inv (w.setStage k task stage) := by
  refine inv_setStage h hTask ?_ ?_
  · intro c _ hConn
    rw [hOld] at hConn
    cases hConn
  · intro c hConn
    rw [hNew] at hConn
    cases hConn

theorem inv_resumeReattach {w' : World} {reply : ReattachReply} (h : Inv w)
    (hTask : (w.shared k).reattach = some task)
    (hStep : w.resumeReattach k task reply = some w') : Inv w' := by
  have hNone : ∀ {stage}, task.stage = stage → stage.conn = none → task.stage.conn = none :=
    fun hEq hConn => hEq ▸ hConn
  unfold World.resumeReattach at hStep
  split at hStep
  · -- the machine's address is there, or the window has not passed
    cases hStep
    exact inv_unconnected h hTask (hNone ‹_› rfl) rfl
  · cases hStep
    exact inv_unconnected h hTask (hNone ‹_› rfl) (conn_turn _)
  · cases hStep
    refine inv_unconnected h hTask (hNone ‹_› rfl) ?_
    split
    · rfl
    · exact conn_turn _
  · cases hStep
    show Inv (ite _ _ _)
    split
    · exact inv_opened h hTask (hNone ‹_› rfl) rfl
    · refine inv_listening h hTask (hNone ‹_› rfl) ?_
      split <;> rfl
  · -- the machine knows the job
    rename_i hStage
    cases hStep
    refine inv_setStage h hTask ?_ ?_
    · exact fun c _ hConn => by rwa [hStage] at hConn
    · exact fun c hConn => by rwa [hStage]
  · cases hStep
    exact inv_answered h hTask (by rw [‹task.stage = _›]; rfl) _
  · cases hStep
    exact inv_answered h hTask (by rw [‹task.stage = _›]; rfl) _
  · cases hStep
    exact inv_answered h hTask (by rw [‹task.stage = _›]; rfl) _
  · cases hStep
    refine inv_unconnected h hTask (hNone ‹_› rfl) ?_
    split <;> rfl
  · cases hStep
    exact inv_reattached h hTask ‹_›
  · cases hStep

end Reattaching

/-! ## Steps of the innermost call -/

section Resuming

variable {w w' : World} {f : Frame} {rest : List Frame}

/-- A new connection of a probe. -/
theorem Core.openOwn {live : Option CallId} (h : Core none live w) :
    Core (some w.nextConn) live w.openConn := by
  have hClosed := h.openClosed
  have hOwn : Core (some w.nextConn) live (w.openConn.closeAll [w.nextConn]) := by
    refine ⟨?_, ?_, hClosed.ended, hClosed.unsettled, hClosed.listening, hClosed.attached,
      hClosed.early, hClosed.newConns, hClosed.newCalls⟩
    · intro c hc
      rcases hClosed.held c hc with hMine | hMine | hMine | hMine
      · exact .inl hMine
      · exact .inr (.inl hMine)
      · cases hMine
      · exact .inr (.inr (.inr hMine))
    · rintro c (hMine | hMine | hMine | hMine)
      · exact hClosed.known c (.inl hMine)
      · exact hClosed.known c (.inr (.inl hMine))
      · cases hMine
        exact Nat.lt_succ_self _
      · exact hClosed.known c (.inr (.inr (.inr hMine)))
  refine hOwn.reopen (c := w.nextConn) (.inr (.inr (.inl rfl))) ?_ ?_ ?_ ?_ ?_ rfl rfl rfl rfl rfl
    rfl
  · intro hEq
    have hChoice : w.nextConn = w.connection := hEq
    exact absurd (h.known _ (.inl rfl)) (by rw [← hChoice]; exact Nat.lt_irrefl _)
  · exact if_pos (List.mem_singleton_self _)
  · intro q task hTask hConn
    exact absurd (h.known _ (.inr (.inr (.inr ⟨q, task, hTask, hConn⟩)))) (Nat.lt_irrefl _)
  · intro c hc
    rcases isOpen_openConn hc with hEq | hOpen
    · exact .inl hEq
    · by_cases hEq : c = w.nextConn
      · exact .inl hEq
      · refine .inr ?_
        have hNew : w.openConn.isOpen c = true := hc
        simp [World.closeAll, hNew, hEq]
  · intro c l hl
    refine .inl ?_
    show (if c ∈ [w.nextConn] then none else w.listener c) = some l
    split
    · rename_i hMem
      have hOld : w.listener c = some l := hl
      rw [List.mem_singleton.mp hMem, (h.newConns _ (Nat.le_refl _)).2] at hOld
      cases hOld
    · exact hl

theorem Running.probing (pc : Pc) (h : Running pc.own f rest w)
    (hShut : w.isOpen w.connection = false)
    (hPc : (∃ retry stage, pc = .probing retry stage) ∨ ∃ retry probe, pc = .probed retry probe) :
    Inv (w.goto f rest pc) := by
  rcases hPc with ⟨retry, stage, rfl⟩ | ⟨retry, probe, rfl⟩
  · exact h.goto (by simp) ⟨h.idle, hShut⟩
  · exact h.goto (by simp) ⟨h.idle, hShut⟩

theorem Running.openOwn (h : Running none f rest w) : Running (some w.nextConn) f rest w.openConn :=
  ⟨h.core.openOwn, h.stacked.of_shared (Nat.le_refl _) rfl, h.idle⟩

/-- The probe closes the connection it opened, or the caller has it. -/
theorem inv_resumeProbing {retry : Retry} {stage : ProbeStage} {reply : Reply}
    (h : Running (Pc.own (.probing retry stage)) f rest w) (hShut : w.isOpen w.connection = false)
    (hReply : ∀ c, stage = .offering c → reply ≠ .raises)
    (hStep : w.resumeProbing f rest retry stage reply = some w') : Inv w' := by
  have hProbed : ∀ {probe}, ∃ r p, Pc.probed retry probe = Pc.probed r p := ⟨_, _, rfl⟩
  have hProbing : ∀ {stage}, ∃ r s, Pc.probing retry stage = Pc.probing r s := ⟨_, _, rfl⟩
  have hClosed : ∀ {c : Conn}, (w.closeAll [c]).isOpen (w.closeAll [c]).connection = false :=
    ((closes_closeAll _).shut hShut)
  have hOpened : stage = .connecting → w.openConn.isOpen w.openConn.connection = false := by
    rintro rfl
    by_contra hNot
    rcases isOpen_openConn (eq_true_of_ne_false hNot) with hEq | hOpen
    · have hChoice : w.connection = w.nextConn := hEq
      exact absurd (h.core.known _ (.inl rfl)) (by rw [hChoice]; exact Nat.lt_irrefl _)
    · have hOld : w.isOpen w.connection = true := hOpen
      rw [hShut] at hOld
      cases hOld
  unfold World.resumeProbing at hStep
  split at hStep
  · cases hStep
    exact Running.probing (.probing retry .connecting) h hShut (.inl hProbing)
  · cases hStep
    exact Running.probing (.probed retry (.failure false)) h hShut (.inr hProbed)
  · split at hStep
    · cases hStep
      exact Running.probing (.probing retry (.starting w.nextConn)) (Running.openOwn h)
        (hOpened rfl) (.inl hProbing)
    · -- the machine does not build: the connection is closed
      cases hStep
      exact Running.probing (.probed retry (.failure false)) (Running.openOwn h).closeOwn
        ((closes_closeAll _).shut (hOpened rfl)) (.inr hProbed)
  · cases hStep
    exact Running.probing (.probed retry (.failure _)) h hShut (.inr hProbed)
  · cases hStep
    exact Running.probing (.probing retry (.offering _)) h hShut (.inl hProbing)
  · cases hStep
    exact Running.probing (.probed retry (.failure _)) (Running.closeOwn h) hClosed
      (.inr hProbed)
  · cases hStep
    exact Running.probing (.probed retry (.offer _)) h hShut (.inr hProbed)
  · cases hStep
    exact Running.probing (.probed retry (.failure false)) (Running.closeOwn h) hClosed
      (.inr hProbed)
  · exact absurd rfl (hReply _ rfl)
  · cases hStep

/-- No cancellation has fallen into a probe that ends with a connection. -/
def keepsProbe (w : World) : Probe → Bool
  | .offer _ => !w.cancelled
  | .failure _ => true

theorem inv_resumeProbed {retry : Retry} {probe : Probe} (again fits : Bool)
    (h : Running (Pc.own (.probed retry probe)) f rest w) (hShut : w.isOpen w.connection = false)
    (hKeeps : keepsProbe w probe = true) : Inv (w.resumeProbed f rest retry again fits probe) := by
  cases probe with
  | failure refused =>
      have hRunning : Running none f rest w := h
      show Inv (ite _ _ _)
      split
      · have hDelaying : Running (Pc.own (.delaying retry)) f rest w := h
        exact hDelaying.goto (by simp) ⟨hDelaying.idle, hShut⟩
      · split
        · exact hRunning.raise (.inl ‹_›)
        · exact hRunning.fail
  | offer c =>
      have hRunning : Running (some c) f rest w := h
      have hCancelled : w.cancelled = false := by simpa [keepsProbe] using hKeeps
      show Inv (ite _ _ _)
      rw [if_neg (by simp [hCancelled])]
      split
      · -- the probe's connection becomes the choice's, whose own is closed
        have hStored : Running (Pc.own (.reprobed retry)) f rest { w with connection := c } := by
          refine hRunning.narrow (fun _ hc => hc) (fun _ _ hl => hl) ?_ ?_ ?_ rfl rfl rfl
          · rintro c' hc (hMine | hMine | hMine)
            · have hOpen : w.isOpen c' = true := hc
              rw [hMine, hShut] at hOpen
              cases hOpen
            · exact .inr (.inl hMine)
            · exact .inl (Option.some.inj hMine).symm
          · rintro c' (hMine | hMine | hMine)
            · exact .inr (.inr (congrArg some hMine.symm))
            · exact .inr (.inl hMine)
            · cases hMine
          · intro hTrue
            exact absurd (hCancelled.symm.trans hTrue) (by simp)
        exact hStored.goto (by simp) hStored.idle
      · exact hRunning.closeOwn.fail

theorem Running.of_idle (hCore : Core f.pc.own f.live w) (hStacked : Stacked f rest w)
    (hPc : f.pc ≠ .outcome) (hIdle : Idle w f.id) : Running f.pc.own f rest w := by
  refine ⟨?_, hStacked, hIdle⟩
  have hLive : f.live = none := if_neg hPc
  rw [← hLive]
  exact hCore

theorem Running.wait {pc : Pc} (h : Running none f rest w) (hOwn : pc.own = none)
    (hPc : pc ≠ .outcome) (hAt : AtPc { f with pc := pc } w) : Inv (w.goto f rest pc) := by
  refine Running.goto ?_ hPc hAt
  rw [hOwn]
  exact h

theorem idle_of_job {k : CallId} (hJob : (w.shared k).job = false) : Idle w k := by
  intro hTrue
  rw [hJob] at hTrue
  cases hTrue

/-- The call listens to the choice's connection from now on. -/
theorem Running.sendStart (h : Running none f rest w) (hCatching : f.catching = false)
    (hJob : (w.shared f.id).job = false)
    (hUnheard : ∀ c, w.listener c = some (.call f.id) → w.isOpen c = false) (enabled : Bool) :
    Inv (w.sendStart f rest enabled) := by
  have hListener : ∀ {c l}, Function.update w.listener w.connection (some (.call f.id)) c =
      some l → c = w.connection ∧ l = .call f.id ∨ w.listener c = some l := by
    intro c l hl
    rw [Function.update_apply] at hl
    split at hl
    · cases hl
      exact .inl ⟨‹_›, rfl⟩
    · exact .inr hl
  have hClears : Settles w (w.setShared f.id { w.shared f.id with early := [] }) :=
    .setShared rfl fun hSettled => hSettled
  have hCleared : Core none none (w.setShared f.id { w.shared f.id with early := [] }) :=
    h.core.setShared h.stacked.id (fun hNone => hNone) rfl rfl
  have hJob' : ((w.setShared f.id { w.shared f.id with early := [] }).shared f.id).job = false :=
    (hClears.job f.id).trans hJob
  have hCore : Core none none ((w.setShared f.id { w.shared f.id with early := [] }).listen
      w.connection (some (.call f.id))) := by
    refine ⟨hCleared.held, hCleared.known, hCleared.ended, hCleared.unsettled, ?_, ?_,
      hCleared.early, ?_, ?_⟩
    · intro c q hl hc hTrue hNone
      rcases hListener hl with ⟨-, hCall⟩ | hOld
      · cases hCall
        exact absurd (hJob'.symm.trans hTrue) (by simp)
      · exact hCleared.listening c q hOld hc hTrue hNone
    · intro c q hl hc
      rcases hListener hl with ⟨-, hCall⟩ | hOld
      · cases hCall
      · exact hCleared.attached c q hOld hc
    · intro c hc
      obtain ⟨hClosed, hFree⟩ := h.core.newConns c hc
      refine ⟨hClosed, Option.eq_none_iff_forall_ne_some.mpr fun l hl => ?_⟩
      rcases hListener hl with ⟨hEq, -⟩ | hOld
      · exact absurd (hEq ▸ hc) (Nat.not_le.mpr (h.core.known _ (.inl rfl)))
      · rw [hFree] at hOld
        cases hOld
    · intro q hq
      obtain ⟨hNew, hFree⟩ := hCleared.newCalls q hq
      refine ⟨hNew, fun c hl => ?_⟩
      rcases hListener hl with ⟨-, hCall⟩ | hOld
      · cases hCall
        exact absurd h.stacked.id (Nat.not_lt.mpr hq)
      · exact hFree c hOld
  have hRunning : Running none f rest ((w.setShared f.id { w.shared f.id with early := [] }).listen
      w.connection (some (.call f.id))) :=
    ⟨hCore, (hClears.stacked h.stacked).of_shared (Nat.le_refl _) rfl, idle_of_job hJob'⟩
  show Inv (ite _ _ _)
  split
  · exact hRunning.raise (.inr hCatching)
  · rename_i hNot
    have hStarted : Running (Pc.own .start) f rest
        ((w.setShared f.id { w.shared f.id with early := [] }).listen w.connection
          (some (.call f.id))) := hRunning
    refine hStarted.goto (by simp) ⟨hCatching, hJob', ?_, ?_, ?_⟩
    · intro c hl hc
      rcases hListener hl with ⟨hEq, -⟩ | hOld
      · exact hEq
      · have hOpen : w.isOpen c = true := hc
        rw [hUnheard c hOld] at hOpen
        cases hOpen
    · intro hMem
      have hEmpty : .dropped ∈ ((w.setShared f.id
          { w.shared f.id with early := [] }).shared f.id).early := hMem
      rw [shared_setShared_self] at hEmpty
      cases hEmpty
    · intro hTrue
      exact absurd (Bool.or_eq_true_iff.mpr (.inr hTrue)) hNot

theorem inv_resumeOutcome {ok accepted : Bool} (hCore : Core none (some f.id) w)
    (hStacked : Stacked f rest w) (hCatching : f.catching = false)
    (hSettled : (w.shared f.id).settled = some ok) : Inv (w.resumeOutcome f rest ok accepted) := by
  have hNotNone : (w.shared f.id).settled ≠ none := by rw [hSettled]; simp
  have hRunning : Running none f rest w := ⟨hCore.unlive hNotNone, hStacked, fun _ => hNotNone⟩
  show Inv (ite _ _ _)
  split
  · exact hRunning.raise (.inl ‹_›)
  · have hUnheard : Running none f rest (w.listen w.connection none) :=
      ⟨(closes_unlisten _).core hRunning.core, hStacked.of_shared (Nat.le_refl _) rfl,
        hRunning.idle⟩
    show Inv (ite _ _ _)
    split
    · split
      · exact hUnheard.retryAfterLoss
      · exact hUnheard.fail
    · split
      · exact hUnheard.fail
      · -- the staging directory is made
        have hStaging : Running (Pc.own .fetch) f rest
            { w.listen w.connection none with staging := true } :=
          ⟨hUnheard.core.of_same ⟨rfl, rfl, rfl, rfl, rfl, rfl, rfl, rfl⟩,
            hStacked.of_shared (Nat.le_refl _) rfl, hRunning.idle⟩
        exact hStaging.goto (by simp) ⟨hCatching, hRunning.idle⟩

/-- Which steps the code takes without losing a connection: no cancellation falls into a probe
that ends with a connection, and no offer makes `probeMachine` or `pickOffer` throw. -/
def keeps (w : World) : Action → Bool
  | .resume reply =>
      match w.stack with
      | [] => true
      | f :: _ =>
          match f.pc with
          | .probed _ probe => keepsProbe w probe && decide (reply ≠ .raises)
          | .probing _ (.offering _) => decide (reply ≠ .raises)
          | _ => true
  | _ => true

/-- What the call knows before its job has begun. -/
structure Unstarted (f : Frame) (rest : List Frame) (w : World) : Prop where
  running : Running none f rest w
  catching : f.catching = false
  job : (w.shared f.id).job = false
  listening : ∀ c, w.listener c = some (.call f.id) → w.isOpen c = true → c = w.connection

theorem Unstarted.goto (h : Unstarted f rest w) {pc : Pc}
    (hPc : pc = .loop ∨ pc = .peer ∨ pc = .inputs ∨ pc = .sync)
    (hUnheard : ∀ c, w.listener c = some (.call f.id) → w.isOpen c = false) :
    Inv (w.goto f rest pc) := by
  rcases hPc with rfl | rfl | rfl | rfl
  all_goals exact h.running.wait rfl (by simp) ⟨h.catching, h.job, hUnheard⟩

theorem Unstarted.moveOn (h : Unstarted f rest w) {otherwise : World} (hOtherwise : Inv otherwise) :
    Inv (w.moveOn f rest otherwise) :=
  h.running.moveOn h.catching h.job h.listening hOtherwise

/-- A cached artifact settles the call. -/
theorem Unstarted.cacheHit (h : Unstarted f rest w) :
    Inv ((w.settle f.id true).awaitOutcome { f with cacheHit := true } rest) := by
  have hSettles := settles_settle (w := w) f.id true
  have hStacked := hSettles.stacked h.running.stacked
  have hCore : Core none (some f.id) (w.settle f.id true) :=
    (h.running.core.settle h.running.stacked.id true).relive
  have hNotNone : ((w.settle f.id true).shared f.id).settled ≠ none := settled_settle
  exact inv_awaitOutcome hCore
    ⟨hStacked.keepStaging, hStacked.id, hStacked.waiting, hStacked.nodup⟩ h.catching
    (fun _ => hNotNone) (fun _ _ hNone => absurd hNone hNotNone)

/-- The machine has taken the job. -/
theorem Unstarted.startJob (h : Unstarted f rest w) (hCancelled : w.cancelled = false)
    (hDropped : .dropped ∈ (w.shared f.id).early → w.isOpen w.connection = false) :
    Inv ((w.setShared f.id { w.shared f.id with job := true }).awaitOutcome f rest) := by
  refine inv_awaitOutcome (h.running.core.startJob h.running.stacked.id h.listening)
    (h.running.stacked.of_idle (Nat.le_refl _) ?_) h.catching ?_ ?_
  · intro g hg hIdle
    exact hIdle.of_shared (shared_setShared_of_ne (h.running.stacked.ne hg))
  · intro hTrue
    exact absurd (hCancelled.symm.trans hTrue) (by simp)
  · intro hMem _ _
    rw [early_setShared] at hMem
    · exact hDropped hMem
    · rfl

theorem inv_resume {reply : Reply} (h : Inv w) (hStack : w.stack = f :: rest)
    (hKeeps : keeps w (.resume reply) = true) (hStep : w.resume f rest reply = some w') :
    Inv w' := by
  have hAll : Core f.pc.own f.live w ∧ Stacked f rest w ∧ AtPc f w := by
    unfold Inv at h
    rw [hStack] at h
    exact h
  obtain ⟨hCore, hStacked, hAt⟩ := hAll
  have hRunning : f.pc ≠ .outcome → Idle w f.id → Running f.pc.own f rest w :=
    Running.of_idle hCore hStacked
  -- the calls that have not sent `build.start` listen nowhere
  have hBefore : f.pc ∈ [Pc.entry, .loop, .peer, .inputs, .sync] →
      Unstarted f rest w ∧ ∀ c, w.listener c = some (.call f.id) → w.isOpen c = false := by
    intro hMem
    have hOwn : f.pc.own = none := by
      simp only [List.mem_cons, List.not_mem_nil, or_false] at hMem
      rcases hMem with hPc | hPc | hPc | hPc | hPc <;> rw [hPc] <;> rfl
    have hFacts : f.catching = false ∧ (w.shared f.id).job = false ∧
        ∀ c, w.listener c = some (.call f.id) → w.isOpen c = false := by
      unfold AtPc at hAt
      simp only [List.mem_cons, List.not_mem_nil, or_false] at hMem
      rcases hMem with hPc | hPc | hPc | hPc | hPc <;> simpa only [hPc] using hAt
    obtain ⟨hCatching, hJob, hUnheard⟩ := hFacts
    have hPc : f.pc ≠ .outcome := by
      intro hEq
      rw [hEq] at hMem
      exact absurd hMem (by decide)
    refine ⟨⟨?_, hCatching, hJob, ?_⟩, hUnheard⟩
    · rw [← hOwn]
      exact hRunning hPc (idle_of_job hJob)
    · intro c hl hc
      rw [hUnheard c hl] at hc
      cases hc
  unfold keeps at hKeeps
  rw [hStack] at hKeeps
  unfold World.resume at hStep
  unfold AtPc at hAt
  split at hStep
  · -- the call begins
    rename_i hPc
    obtain ⟨hUnstarted, hUnheard⟩ := hBefore (by rw [hPc]; decide)
    cases hStep
    split
    · exact hUnstarted.running.raise (.inl ‹_›)
    · split
      · exact hUnstarted.goto (.inl rfl) hUnheard
      · exact hUnstarted.running.fail
  · rename_i hPc
    obtain ⟨hUnstarted, hUnheard⟩ := hBefore (by rw [hPc]; decide)
    cases hStep
    split
    · exact hUnstarted.goto (.inr (.inl rfl)) hUnheard
    · exact hUnstarted.moveOn hUnstarted.running.fail
  · rename_i hPc
    obtain ⟨hUnstarted, -⟩ := hBefore (by rw [hPc]; decide)
    cases hStep
    exact hUnstarted.running.raise (.inr hUnstarted.catching)
  · -- the machine has a cached artifact or not
    rename_i hPc
    obtain ⟨hUnstarted, hUnheard⟩ := hBefore (by rw [hPc]; decide)
    cases hStep
    split
    · exact hUnstarted.cacheHit
    · split
      · exact hUnstarted.running.fail
      · exact hUnstarted.goto (.inr (.inr (.inl rfl))) hUnheard
  · rename_i hPc
    obtain ⟨hUnstarted, -⟩ := hBefore (by rw [hPc]; decide)
    cases hStep
    exact hUnstarted.running.raise (.inr hUnstarted.catching)
  · rename_i hPc
    obtain ⟨hUnstarted, hUnheard⟩ := hBefore (by rw [hPc]; decide)
    cases hStep
    exact hUnstarted.goto (.inr (.inr (.inr rfl))) hUnheard
  · rename_i hPc
    obtain ⟨hUnstarted, -⟩ := hBefore (by rw [hPc]; decide)
    cases hStep
    exact hUnstarted.running.raise (.inr hUnstarted.catching)
  · -- the inputs are there, or the connection broke off
    rename_i hPc
    obtain ⟨hUnstarted, hUnheard⟩ := hBefore (by rw [hPc]; decide)
    cases hStep
    split
    · exact hUnstarted.running.raise (.inl ‹_›)
    · split
      · exact hUnstarted.running.sendStart hUnstarted.catching hUnstarted.job hUnheard _
      · refine hUnstarted.moveOn ?_
        split
        · exact hUnstarted.running.fail
        · exact hUnstarted.running.retryAfterLoss
  · -- the reply to `build.start`
    rename_i hPc
    simp only [hPc] at hAt
    obtain ⟨hCatching, hJob, hListening, hDropped, -⟩ := hAt
    have hRun := hRunning (by rw [hPc]; simp) (idle_of_job hJob)
    rw [hPc] at hRun
    have hUnstarted : Unstarted f rest w := ⟨hRun, hCatching, hJob, hListening⟩
    cases hStep
    split
    · exact hUnstarted.running.raise (.inl ‹_›)
    · rename_i hNot
      exact hUnstarted.startJob (by simpa using hNot) hDropped
  · rename_i hPc
    simp only [hPc] at hAt
    obtain ⟨hCatching, hJob, hListening, -, -⟩ := hAt
    have hRun := hRunning (by rw [hPc]; simp) (idle_of_job hJob)
    rw [hPc] at hRun
    have hUnstarted : Unstarted f rest w := ⟨hRun, hCatching, hJob, hListening⟩
    cases hStep
    split
    · exact hUnstarted.running.raise (.inl ‹_›)
    · split
      · exact hUnstarted.running.fail
      · exact hUnstarted.moveOn hUnstarted.running.fail
  · -- the outcome is there
    rename_i hPc
    simp only [hPc] at hAt
    obtain ⟨ok, hSettled, rfl⟩ := Option.map_eq_some_iff.mp hStep
    have hLive : f.live = some f.id := if_pos hPc
    rw [hLive, hPc] at hCore
    exact inv_resumeOutcome hCore hStacked hAt.1 hSettled
  · rename_i hPc
    simp only [hPc] at hAt
    have hRun := hRunning (by rw [hPc]; simp) hAt.2
    rw [hPc] at hRun
    cases hStep
    exact Running.raise hRun (.inr hAt.1)
  · -- the artifact is fetched
    rename_i hPc
    simp only [hPc] at hAt
    have hRun := hRunning (by rw [hPc]; simp) hAt.2
    rw [hPc] at hRun
    have hFetching : Running none f rest w := hRun
    cases hStep
    split
    · split
      · exact hFetching.retryCachedMiss
      · exact hFetching.fail
    · split
      · exact hFetching.wait rfl (by simp) hAt
      · exact hFetching.succeed
  · rename_i hPc
    simp only [hPc] at hAt
    have hRun := hRunning (by rw [hPc]; simp) hAt.2
    rw [hPc] at hRun
    cases hStep
    exact Running.raise hRun (.inr hAt.1)
  · rename_i hPc
    simp only [hPc] at hAt
    have hRun := hRunning (by rw [hPc]; simp) hAt.2
    rw [hPc] at hRun
    have hChecking : Running none f rest w := hRun
    cases hStep
    split
    · exact hChecking.succeed
    · exact hChecking.retryCachedMiss
  · rename_i hPc
    simp only [hPc] at hAt
    have hRun := hRunning (by rw [hPc]; simp) hAt.1
    rw [hPc] at hRun
    refine inv_resumeProbing hRun hAt.2 ?_ hStep
    rintro c rfl
    simpa only [keeps, hStack, hPc, decide_eq_true_eq] using hKeeps
  · rename_i hPc
    simp only [hPc] at hAt
    have hRun := hRunning (by rw [hPc]; simp) hAt.1
    rw [hPc] at hRun
    cases hStep
    simp only [hPc, Bool.and_eq_true] at hKeeps
    exact inv_resumeProbed _ _ hRun hAt.2 hKeeps.1
  · rename_i hPc
    simp [hPc] at hKeeps
  · rename_i hPc
    simp only [hPc] at hAt
    have hRun := hRunning (by rw [hPc]; simp) hAt.1
    rw [hPc] at hRun
    have hDelaying : Running none f rest w := hRun
    cases hStep
    split
    · exact hDelaying.raise (.inl ‹_›)
    · exact hDelaying.wait rfl (by simp) ⟨hAt.1, hAt.2⟩
  · rename_i hPc
    simp only [hPc] at hAt
    have hRun := hRunning (by rw [hPc]; simp) hAt
    rw [hPc] at hRun
    cases hStep
    exact Running.recurse hRun _
  · -- the call of itself has thrown: only a cancellation does that
    rename_i hPc
    simp only [hPc] at hAt
    have hRun := hRunning (by rw [hPc]; simp) hAt.1
    rw [hPc] at hRun
    cases hStep
    exact Running.raise hRun (.inl (hAt.2.2 trivial))
  · rename_i result hNotThrown hPc
    simp only [hPc] at hAt
    have hRun := hRunning (by rw [hPc]; simp) hAt.1
    rw [hPc] at hRun
    cases hStep
    refine Running.finish hRun _ (hAt.2.1 (by simp)) ?_ ?_
    · intro hThrown
      exact absurd (by rw [hThrown]) hNotThrown
    · exact fun hOk => of_decide_eq_true hOk
  · cases hStep

end Resuming

/-! ## Runs -/

/-- `offloadBuild` is called on a choice whose connections are open. -/
def World.start (connection : Conn) (runnersUp : List Conn) (cacheOnly swiftpm : Bool)
    (nextConn : Conn) : World where
  isOpen := fun c => decide (c ∈ connection :: runnersUp)
  listener := fun _ => none
  nextConn := nextConn
  connection := connection
  runnersUp := runnersUp
  cacheOnly := cacheOnly
  swiftpm := swiftpm
  cancelled := false
  staging := false
  shared := fun _ => .new
  nextCall := 1
  stack := [⟨0, 0, false, false, false, .entry⟩]
  result := none

section Runs

variable {connection nextConn : Conn} {runnersUp : List Conn} {cacheOnly swiftpm : Bool}
  {w w' : World} {action : Action} {actions : List Action}

theorem inv_start (hFresh : ∀ c ∈ connection :: runnersUp, c < nextConn) :
    Inv (World.start connection runnersUp cacheOnly swiftpm nextConn) := by
  refine ⟨⟨?_, ?_, ?_, ?_, ?_, ?_, ?_, ?_, ?_⟩, ⟨rfl, Nat.zero_lt_one, ?_, ?_⟩, ?_⟩
  · intro c hc
    rcases List.mem_cons.mp (of_decide_eq_true hc) with hMine | hMine
    · exact .inl hMine
    · exact .inr (.inl hMine)
  · rintro c (hMine | hMine | hMine | ⟨k, task, hTask, -⟩)
    · exact hFresh c (hMine ▸ List.mem_cons_self ..)
    · exact hFresh c (List.mem_cons_of_mem _ hMine)
    · cases hMine
    · cases hTask
  · intro hCancelled
    cases hCancelled
  · intro k task hTask
    cases hTask
  · intro c k hl
    cases hl
  · intro c k hl
    cases hl
  · intro k task c hTask
    cases hTask
  · intro c hc
    refine ⟨decide_eq_false fun hMem => ?_, rfl⟩
    exact absurd (hFresh c hMem) (Nat.not_lt.mpr hc)
  · exact fun k _ => ⟨rfl, fun c hl => by cases hl⟩
  · intro g hg
    cases hg
  · exact List.nodup_singleton 0
  · exact ⟨rfl, rfl, fun c hl => by cases hl⟩

theorem inv_step (h : Inv w) (hKeeps : keeps w action = true) (hStep : step w action = some w') :
    Inv w' := by
  cases action with
  | resume reply =>
      cases hStack : w.stack with
      | nil => simp [step, hStack] at hStep
      | cons f rest =>
          simp only [step, hStack] at hStep
          exact inv_resume h hStack hKeeps hStep
  | resumeReattach k reply =>
      cases hTask : (w.shared k).reattach with
      | none => simp [step, hTask] at hStep
      | some task =>
          simp only [step, hTask] at hStep
          exact inv_resumeReattach h hTask hStep
  | built c ok =>
      obtain ⟨-, hEq⟩ := Option.ite_none_right_eq_some.mp hStep
      cases hEq
      exact inv_built h ok
  | ends c abnormal =>
      obtain ⟨hOpen, hEq⟩ := Option.ite_none_right_eq_some.mp hStep
      cases hEq
      exact inv_endConn h hOpen abnormal
  | timeout =>
      cases hStack : w.stack with
      | nil => simp [step, hStack] at hStep
      | cons f rest =>
          simp only [step, hStack] at hStep
          obtain ⟨hPc, hEq⟩ := Option.ite_none_right_eq_some.mp hStep
          cases hEq
          exact inv_timeout h hStack hPc
  | cancel =>
      obtain ⟨-, hEq⟩ := Option.ite_none_left_eq_some.mp hStep
      cases hEq
      exact inv_cancel h

/-- Nothing is open once the calls and the reattachments are over. -/
theorem Inv.ended (h : Inv w) (hStack : w.stack = [])
    (hReattach : ∀ k, (w.shared k).reattach = none) (c : Conn) : w.isOpen c = false := by
  unfold Inv at h
  rw [hStack] at h
  obtain ⟨hCore, ⟨hConnection, hRunners⟩, -⟩ := h
  by_contra hNot
  have hOpen := eq_true_of_ne_false hNot
  rcases hCore.held c hOpen with hMine | hMine | hMine | ⟨k, task, hTask, -⟩
  · rw [hMine, hConnection] at hOpen
    cases hOpen
  · rw [hRunners] at hMine
    cases hMine
  · cases hMine
  · rw [hReattach k] at hTask
    cases hTask

/-- A build that is over has closed every connection and staged nothing but its result, unless a
cancellation fell into a probe of `reprobe` that ended with a connection, or its offer threw. -/
theorem offloadBuild_leaves_nothing (hFresh : ∀ c ∈ connection :: runnersUp, c < nextConn)
    (hRun : Machine.run step (.start connection runnersUp cacheOnly swiftpm nextConn) actions =
      some w)
    (hKeeps : Machine.Meets step (fun w action => keeps w action = true)
      (.start connection runnersUp cacheOnly swiftpm nextConn) actions) (hOver : w.stack = []) :
    ((∀ k, (w.shared k).reattach = none) → ∀ c, w.isOpen c = false) ∧
      (w.staging = true → w.result = some .ok) := by
  have hInv : Inv w := Machine.invariant_run_meets (P := Inv)
    (fun _ _ _ h hMeets hStep => inv_step h hMeets hStep) (inv_start hFresh) hRun hKeeps
  refine ⟨hInv.ended hOver, ?_⟩
  unfold Inv at hInv
  rw [hOver] at hInv
  exact hInv.2.2

end Runs

/-- The machine's job is lost with its connection and reattached; then the artifact is fetched. -/
def reattachedRun : List Action :=
  [.resume (.checked true), .resume (.usable true), .resume (.artifact false), .resume .inputs,
    .resume (.synced true true), .resume .job, .ends 0 true, .resumeReattach 0 .resolved,
    .resumeReattach 0 (.opened true true), .resumeReattach 0 .attached,
    .resumeReattach 0 (.handed none), .resumeReattach 0 .resumed, .built 1 true,
    .resume (.outcome true), .resume (.fetched true)]

theorem offloadBuild_leaves_nothing_reattachedRun :
    ∃ w, Machine.run step (.start 0 [] false false 1) reattachedRun = some w ∧
      (∀ c, w.isOpen c = false) ∧ w.result = some .ok := by
  have hRun : ∃ w, Machine.run step (.start 0 [] false false 1) reattachedRun = some w ∧
      w.stack = [] ∧ (∀ k, (w.shared k).reattach = none) ∧ w.result = some .ok := by
    refine ⟨_, rfl, rfl, ?_, rfl⟩
    intro k
    cases k <;> rfl
  obtain ⟨w, hSome, hOver, hReattach, hResult⟩ := hRun
  have hLeft := offloadBuild_leaves_nothing (by decide) hSome
    (by decide +kernel) hOver
  exact ⟨w, hSome, hLeft.1 hReattach, hResult⟩

/-- A cached artifact vanishes, and the cancellation falls into the probe that follows. -/
def cancelledProbeRun : List Action :=
  [.resume (.checked true), .resume (.usable true), .resume (.artifact true),
    .resume (.outcome true), .resume (.fetched false), .resume (.success true),
    .resume (.success true), .cancel, .resume (.success true), .resume (.success true),
    .resume (.probed false false)]

theorem not_leaves_nothing_cancelledProbe :
    ¬ ∀ (connection : Conn) (runnersUp : List Conn) (cacheOnly swiftpm : Bool) (nextConn : Conn)
      (actions : List Action) (w : World), (∀ c ∈ connection :: runnersUp, c < nextConn) →
      Machine.run step (.start connection runnersUp cacheOnly swiftpm nextConn) actions = some w →
      w.stack = [] → (∀ k, (w.shared k).reattach = none) → ∀ c, w.isOpen c = false := by
  intro hAll
  have hRun : ∃ w, Machine.run step (.start 0 [] false false 1) cancelledProbeRun = some w ∧
      w.stack = [] ∧ (∀ k, (w.shared k).reattach = none) ∧ w.isOpen 1 = true := by
    refine ⟨_, rfl, rfl, ?_, by decide +kernel⟩
    intro k
    cases k <;> rfl
  obtain ⟨w, hSome, hOver, hReattach, hOpen⟩ := hRun
  rw [hAll 0 [] false false 1 cancelledProbeRun w (by decide) hSome hOver hReattach 1] at hOpen
  cases hOpen

end Stim.Cli.OffloadBuild
