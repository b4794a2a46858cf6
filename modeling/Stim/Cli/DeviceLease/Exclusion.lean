import Stim.Cli.DeviceLease.Files

/-!
# Physical device leases are exclusive

A device is granted only when no one else's lease on it is running, no step touches
another workspace's lease before it has expired, and a workspace that was granted a
device holds no other for the slot.
-/

namespace Stim.Cli

open LeaseWorld

variable {w w' : LeaseWorld} {root : String}

/-! ## Frames -/

/-- No lease of `root` appears that was not there. -/
def Frame (w w' : LeaseWorld) (root : String) : Prop :=
  ∀ path l', w'.lease path = some l' → l'.holder = root →
    ∃ l, w.lease path = some l ∧ Same l l'

theorem Same.trans {l l' l'' : DeviceLease} (h : Same l l') (h' : Same l' l'') : Same l l'' :=
  ⟨h'.platform.trans h.platform, h'.id.trans h.id, h'.slot.trans h.slot,
    h'.holder.trans h.holder, h'.token.trans h.token⟩

theorem frame_of_files (h : w'.files = w.files) : Frame w w' root := by
  intro path l' hLease _
  refine ⟨l', ?_, .refl l'⟩
  rwa [LeaseWorld.lease, h] at hLease

variable {path : String}

theorem frame_of_erase (h : w'.files = w.files.erase path) : Frame w w' root := by
  intro path' l' hLease _
  refine ⟨l', ?_, .refl l'⟩
  rw [LeaseWorld.lease, h, lease_erase] at hLease
  split at hLease
  · cases hLease
  · exact hLease

/-- The lease in a file that was just written. -/
theorem lease_of_insert {path path' : String} {l l' : DeviceLease}
    (h : w'.files = AList.insert path (some l) w.files) (hLease : w'.lease path' = some l') :
    (path' = path ∧ Same l l') ∨ (path' ≠ path ∧ w.lease path' = some l') := by
  rw [LeaseWorld.lease, h, lease_insert] at hLease
  split at hLease
  · rename_i hPath
    exact .inl ⟨hPath, same_of_parseLease hLease⟩
  · rename_i hPath
    exact .inr ⟨hPath, hLease⟩

theorem frame_of_rewrite {l l' : DeviceLease} (hLease : w.lease path = some l) (hSame : Same l l')
    (h : w'.files = AList.insert path (some l') w.files) : Frame w w' root := by
  intro path' l'' hLease'' _
  rcases lease_of_insert h hLease'' with ⟨rfl, hRead⟩ | ⟨-, hOld⟩
  · exact ⟨l, hLease, hSame.trans hRead⟩
  · exact ⟨l'', hOld, .refl l''⟩

/-- A step for another workspace gives `root` no lease. -/
theorem frame_of_other {actor : String} (h : FileStep w actor w') (hOther : actor ≠ root) :
    Frame w w' root := by
  cases h with
  | same h => exact frame_of_files h
  | remove _ _ h => exact frame_of_erase h
  | rewrite hLease _ hSame h => exact frame_of_rewrite hLease hSame h
  | take _ hHolder h =>
      intro path l' hLease hRoot
      rcases lease_of_insert h hLease with ⟨-, hRead⟩ | ⟨-, hOld⟩
      · rw [hRead.holder, hHolder] at hRoot
        exact absurd hRoot hOther
      · exact ⟨l', hOld, .refl l'⟩

theorem frame_of_raised {r : Nat} {raiseCall : RaiseCall} (h : Tidy w)
    (hRaise : Raised w r raiseCall w') : Frame w w' root := by
  cases hRaise with
  | lost hLost => exact frame_of_files rfl
  | kept hLease hToken => exact frame_of_files rfl
  | @raised l expiresAt hLease hToken =>
      have hSame : Same l { l with expiresAt } := ⟨rfl, rfl, rfl, rfl, rfl⟩
      refine frame_of_rewrite hLease hSame ?_
      rw [← (h.lease hLease).1]
      rfl

/-! ## What a `takeLease` has cleared -/

/-- A lease of the workspace for the slot a `takeLease` asks for. -/
structure ForSlot (root : String) (request : LeaseRequest) (l : DeviceLease) : Prop where
  holder : l.holder = root
  platform : l.platform = request.platform
  slot : l.slotName = request.slot

theorem ForSlot.of_same {request : LeaseRequest} {l l' : DeviceLease}
    (h : ForSlot root request l') (hSame : Same l l') : ForSlot root request l :=
  ⟨hSame.holder.symm.trans h.holder, hSame.platform.symm.trans h.platform,
    hSame.slotName.symm.trans h.slot⟩

/-- The lease a call was granted. -/
def TakeLeaseResult.granted : TakeLeaseResult → Option DeviceLease
  | .taken lease => some lease
  | .set lease => some lease
  | _ => none

/-- The workspace has no lease for the slot but the one with this token. -/
def OnlyToken (w : LeaseWorld) (root : String) (request : LeaseRequest) (token : String) : Prop :=
  ∀ path l, w.lease path = some l → ForSlot root request l →
    path = deviceLeasePath request.platform request.id ∧ l.token = token

/-- How far a `takeLease` has got with the workspace's other leases for the slot. -/
def Cleared (w : LeaseWorld) (root : String) (request : LeaseRequest) : LeaseStage → Prop
  | .listing todo found => ∀ path l, w.lease path = some l → ForSlot root request l →
      l.id ≠ request.id → path ∈ todo ∨ ∃ l' ∈ found, Same l' l
  | .displacing todo => ∀ path l, w.lease path = some l → ForSlot root request l →
      l.id ≠ request.id → ∃ l' ∈ todo, Same l' l
  | .recording result record => OnlyToken w root request record.token ∧
      ∀ lease, result.granted = some lease → lease.token = record.token
  | .returned (some result) => ∀ lease, result.granted = some lease →
      OnlyToken w root request lease.token ∧
        ∃ record, (w.holders root).lookup ⟨request.platform, request.slot⟩ = some record ∧
          record.token = lease.token
  | _ => True

theorem OnlyToken.frame {request : LeaseRequest} {token : String}
    (h : OnlyToken w root request token) (hFrame : Frame w w' root) :
    OnlyToken w' root request token := by
  intro path l hLease hSlot
  obtain ⟨before, hBefore, hSame⟩ := hFrame path l hLease hSlot.holder
  obtain ⟨hPath, hToken⟩ := h path before hBefore (hSlot.of_same hSame)
  exact ⟨hPath, hSame.token.trans hToken⟩

/-- What others do leaves it cleared. -/
theorem Cleared.frame {request : LeaseRequest} {stage : LeaseStage}
    (h : Cleared w root request stage) (hFrame : Frame w w' root)
    (hHolders : w'.holders root = w.holders root) : Cleared w' root request stage := by
  cases stage with
  | listing todo found =>
      intro path l hLease hSlot hId
      obtain ⟨before, hBefore, hSame⟩ := hFrame path l hLease hSlot.holder
      rcases h path before hBefore (hSlot.of_same hSame) (hSame.id ▸ hId) with
        hTodo | ⟨l', hFound, hRead⟩
      · exact .inl hTodo
      · exact .inr ⟨l', hFound, hRead.trans hSame⟩
  | displacing todo =>
      intro path l hLease hSlot hId
      obtain ⟨before, hBefore, hSame⟩ := hFrame path l hLease hSlot.holder
      obtain ⟨l', hTodo, hRead⟩ := h path before hBefore (hSlot.of_same hSame) (hSame.id ▸ hId)
      exact ⟨l', hTodo, hRead.trans hSame⟩
  | recording result record => exact ⟨h.1.frame hFrame, h.2⟩
  | returned result =>
      cases result with
      | none => trivial
      | some result =>
          intro lease hLease
          obtain ⟨hOnly, hRecord⟩ := h lease hLease
          exact ⟨hOnly.frame hFrame, hHolders ▸ hRecord⟩
  | begun => trivial
  | releasing todo => trivial
  | forgetting key record todo => trivial

/-! ## Its own steps -/

section Own

variable {token : String} {call : HolderCall} {request : LeaseRequest}

theorem mem_keys_of_lease {path : String} {l : DeviceLease} (h : w.lease path = some l) :
    path ∈ w.files.keys := by
  obtain ⟨raw, hRaw, -⟩ := Option.bind_eq_some_iff.mp h
  exact AList.mem_keys.mp (AList.lookup_isSome.mp (by simp [hRaw]))

theorem cleared_listed {path : String} {todo : List String} {found : List DeviceLease}
    (h : Cleared w root request (.listing (path :: todo) found)) :
    Cleared w root request (.listing todo (found ++ (w.lease path).toList)) := by
  intro path' l hLease hSlot hId
  rcases h path' l hLease hSlot hId with hTodo | ⟨l', hFound, hSame⟩
  · rcases List.mem_cons.mp hTodo with rfl | hTodo
    · refine .inr ⟨l, List.mem_append_right _ ?_, .refl l⟩
      rw [hLease]
      exact List.mem_singleton_self _
    · exact .inl hTodo
  · exact .inr ⟨l', List.mem_append_left _ hFound, hSame⟩

theorem cleared_found {found : List DeviceLease} (h : Cleared w root request (.listing [] found)) :
    Cleared w root request (.displacing (displacedLeases found root request)) := by
  intro path l hLease hSlot hId
  rcases h path l hLease hSlot hId with hTodo | ⟨l', hFound, hSame⟩
  · cases hTodo
  · refine ⟨l', List.mem_filter.mpr ⟨hFound, decide_eq_true ?_⟩, hSame⟩
    have hSlot' := hSlot.of_same hSame
    exact ⟨hSlot'.platform, hSlot'.holder, hSlot'.slot, hSame.id ▸ hId⟩

/-- `releaseByRoot` leaves no lease of the workspace on the device. -/
theorem holder_ne_of_releaseByRoot {platform : LeasePlatform} {id : String} {l : DeviceLease}
    (h : (w.releaseByRoot root platform id).lease (deviceLeasePath platform id) = some l) :
    l.holder ≠ root := by
  intro hHolder
  unfold LeaseWorld.releaseByRoot at h
  dsimp only at h
  split at h
  · rename_i current hLease
    split at h
    · rw [LeaseWorld.lease, LeaseWorld.removeLease, lease_erase, if_pos rfl] at h
      cases h
    · rename_i hOther
      rw [hLease] at h
      cases h
      exact hOther hHolder
  · rename_i hNone
    rw [hNone] at h
    cases h

theorem frame_releaseByRoot (platform : LeasePlatform) (id : String) :
    Frame w (w.releaseByRoot root platform id) root := by
  unfold LeaseWorld.releaseByRoot
  dsimp only
  split
  · split
    · exact frame_of_erase rfl
    · exact frame_of_files rfl
  · exact frame_of_files rfl

theorem cleared_displaced {lease : DeviceLease} {todo : List DeviceLease} (hTidy : Tidy w)
    (h : Cleared w root request (.displacing (lease :: todo))) :
    Cleared (w.releaseByRoot root lease.platform lease.id) root request (.displacing todo) := by
  intro path l hLease hSlot hId
  obtain ⟨before, hBefore, hSame⟩ := frame_releaseByRoot _ _ path l hLease hSlot.holder
  obtain ⟨l', hTodo, hRead⟩ := h path before hBefore (hSlot.of_same hSame) (hSame.id ▸ hId)
  rcases List.mem_cons.mp hTodo with rfl | hTodo
  · -- the lease stood in the file that was just released
    have hPath : path = deviceLeasePath l'.platform l'.id := by
      rw [← (hTidy.lease hBefore).1, hRead.path]
      rfl
    rw [hPath] at hLease
    exact absurd hSlot.holder (holder_ne_of_releaseByRoot hLease)
  · exact ⟨l', hTodo, hRead.trans hSame⟩

/-- After the grant the workspace's only lease for the slot is the one granted. -/
theorem onlyToken_of_insert {granted : DeviceLease} (hTidy : Tidy w)
    (h : Cleared w root request (.displacing []))
    (hPath : granted.path = deviceLeasePath request.platform request.id)
    (hFiles : w'.files = AList.insert granted.path (some granted) w.files) :
    OnlyToken w' root request granted.token := by
  intro path l hLease hSlot
  rcases lease_of_insert hFiles hLease with ⟨rfl, hRead⟩ | ⟨hNe, hOld⟩
  · exact ⟨hPath, hRead.token⟩
  · -- any other one would have another device, and those are displaced
    have hId : l.id ≠ request.id := by
      intro hId
      refine hNe ?_
      rw [← (hTidy.lease hOld).1, hPath, DeviceLease.path, hSlot.platform, hId]
    obtain ⟨l', hMem, -⟩ := h path l hOld hSlot hId
    cases hMem

theorem cleared_granted (hTidy : Tidy w) (h : Cleared w root request (.displacing []))
    (hGrant : Granted w root call request token w') :
    ∃ call', w'.calls root = some call' ∧ call'.call = call.call ∧
      Cleared w' root request call'.stage := by
  cases hGrant with
  | refused hRefused =>
      refine ⟨_, calls_setCall_self .., rfl, ?_⟩
      intro lease hLease
      rename_i result
      cases result with
      | taken l => exact absurd rfl (hRefused l).1
      | set l => exact absurd rfl (hRefused l).2
      | held l => cases hLease
      | unreadable path => cases hLease
  | @set l kept kind hLease hHolder hSlot hSame =>
      refine ⟨_, calls_setCall_self .., rfl, ?_, ?_⟩
      · exact onlyToken_of_insert hTidy h (hSame.path.trans (hTidy.lease hLease).1) rfl
      · rintro lease ⟨⟩
        rfl
  | @taken granted kind hFree hGranted =>
      have hPath : granted.path = deviceLeasePath request.platform request.id := by
        rw [DeviceLease.path, hGranted.1, hGranted.2.1]
      refine ⟨_, calls_setCall_self .., rfl, ?_, ?_⟩
      · show OnlyToken _ root request token
        rw [← hGranted.2.2.2.2]
        exact onlyToken_of_insert hTidy h hPath rfl
      · rintro lease ⟨⟩
        exact hGranted.2.2.2.2

/-- Every step of a `takeLease` keeps to what it has cleared. -/
theorem cleared_proceed (hTidy : Tidy w) (hRequest : call.call = .takeLease request)
    (h : Cleared w root request call.stage) (hStep : w.proceed root call token = some w') :
    w'.calls root = none ∨ ∃ call', w'.calls root = some call' ∧ call'.call = call.call ∧
      Cleared w' root request call'.stage := by
  unfold proceed at hStep
  split at hStep
  · cases hStep
    refine .inr ⟨_, calls_setCall_self .., ?_, ?_⟩
    · rw [hRequest, LeaseWorld.plan]
      split <;> rfl
    · rw [hRequest, LeaseWorld.plan]
      split <;> trivial
  · cases hStep
    exact .inr ⟨_, calls_setCall_self .., rfl, trivial⟩
  · cases hStep
    exact .inr ⟨_, calls_setCall_self .., rfl, trivial⟩
  · rw [hRequest] at hStep
    cases hStep
    refine .inr ⟨_, calls_setCall_self .., hRequest.symm, ?_⟩
    intro path l hLease _ _
    exact .inl (mem_keys_of_lease hLease)
  · rename_i hStage
    cases hStep
    rw [hStage] at h
    exact .inr ⟨_, calls_setCall_self .., rfl, cleared_listed h⟩
  · rename_i hStage
    cases hStep
    rw [hStage] at h
    refine .inr ⟨_, calls_setCall_self .., rfl, ?_⟩
    rw [hRequest]
    exact cleared_found h
  · rename_i hStage
    cases hStep
    rw [hStage] at h
    exact .inr ⟨_, calls_setCall_self .., rfl, cleared_displaced hTidy h⟩
  · rename_i hStage
    rw [hRequest] at hStep
    dsimp only at hStep
    split at hStep
    · cases hStep
    · cases hStep
      rw [hStage] at h
      exact .inr (cleared_granted hTidy h (granted_grant ..))
  · rename_i result record hStage
    rw [hRequest] at hStep
    cases hStep
    rw [hStage] at h
    refine .inr ⟨_, calls_setCall_self .., hRequest.symm, ?_⟩
    intro lease hLease
    rw [h.2 lease hLease]
    refine ⟨h.1, record, ?_, rfl⟩
    show AList.lookup _ ((w.writeHolder root _).holders root) = _
    rw [holders_writeHolder, if_pos rfl, AList.lookup_insert]
  · cases hStep
    exact .inl (Function.update_self ..)

end Own

/-! ## Every run -/

/-- Tokens are in order, and every `takeLease` has cleared what it should have. -/
structure Orderly (w : LeaseWorld) : Prop where
  tidy : Tidy w
  cleared : ∀ root call request, w.calls root = some call → call.call = .takeLease request →
    Cleared w root request call.stage

theorem orderly_initial (junk : List String) : Orderly (LeaseWorld.initial junk) :=
  ⟨tidy_initial junk, fun _ _ _ hCall => by cases hCall⟩

/-- The workspace whose call an action advances. -/
def LeaseAction.runsFor (w : LeaseWorld) : LeaseAction → Option String
  | .tick => none
  | .begin root _ => some root
  | .proceed root _ => some root
  | .readRecord _ root _ _ => some root
  | .raise r => (w.raises r).map RaiseCall.root

variable {a : LeaseAction}

/-- What an action can do to the files, and to other workspaces' calls and records. -/
theorem leaseStep_cases (hTidy : Tidy w) (hStep : leaseStep w a = some w') :
    w'.files = w.files ∨ ∃ actor, a.runsFor w = some actor ∧ FileStep w actor w' := by
  cases a with
  | tick =>
      cases hStep
      exact .inl rfl
  | begin root leaseCall =>
      simp only [leaseStep] at hStep
      split at hStep
      · cases hStep
      · cases hStep
        exact .inl rfl
  | proceed root token =>
      obtain ⟨call, hCall, hStep⟩ := Option.bind_eq_some_iff.mp hStep
      exact .inr ⟨root, rfl, fileStep_proceed hTidy hCall hStep⟩
  | readRecord r root key minMs =>
      simp only [leaseStep] at hStep
      split at hStep <;> cases hStep <;> exact .inl rfl
  | raise r =>
      obtain ⟨raiseCall, hCall, rfl⟩ := Option.map_eq_some_iff.mp hStep
      refine .inr ⟨raiseCall.root, ?_, fileStep_raised hTidy hCall (raised_raise w r raiseCall)⟩
      simp [LeaseAction.runsFor, hCall]

/-- A step of a call: it stays the call it is, and the other workspaces' calls and records
stay as they are. -/
structure Moved (w : LeaseWorld) (root : String) (call : HolderCall) (w' : LeaseWorld) : Prop where
  calls : ∃ next : Option HolderCall, w'.calls = Function.update w.calls root next ∧
    ∀ c, next = some c → c.call = call.call
  holders : ∀ other, other ≠ root → w'.holders other = w.holders other

theorem moved_setCall {v : LeaseWorld} {call c : HolderCall} (hCalls : v.calls = w.calls)
    (hHolders : ∀ other, other ≠ root → v.holders other = w.holders other)
    (hSame : c.call = call.call) : Moved w root call (v.setCall root c) := by
  refine ⟨⟨some c, ?_, ?_⟩, hHolders⟩
  · rw [LeaseWorld.setCall, hCalls]
  · rintro _ ⟨⟩
    exact hSame

theorem releaseHeld_rest (w : LeaseWorld) (key : SlotKey) (record : WorkspaceLeaseRecord) :
    (w.releaseHeld key record).calls = w.calls ∧ (w.releaseHeld key record).holders = w.holders := by
  unfold LeaseWorld.releaseHeld
  dsimp only
  split
  · split <;> exact ⟨rfl, rfl⟩
  · exact ⟨rfl, rfl⟩

theorem releaseByRoot_rest (w : LeaseWorld) (root : String) (platform : LeasePlatform)
    (id : String) : (w.releaseByRoot root platform id).calls = w.calls ∧
      (w.releaseByRoot root platform id).holders = w.holders := by
  unfold LeaseWorld.releaseByRoot
  dsimp only
  split
  · split <;> exact ⟨rfl, rfl⟩
  · exact ⟨rfl, rfl⟩

theorem forget_rest (w : LeaseWorld) (root : String) (key : SlotKey)
    (record : WorkspaceLeaseRecord) : (w.forget root key record).calls = w.calls ∧
      ∀ other, other ≠ root → (w.forget root key record).holders other = w.holders other := by
  unfold LeaseWorld.forget
  dsimp only
  split
  · refine ⟨rfl, fun other hOther => ?_⟩
    rw [holders_writeHolder, if_neg hOther]
  · exact ⟨rfl, fun _ _ => rfl⟩

theorem plan_call (w : LeaseWorld) (root : String) (leaseCall : LeaseCall) :
    (w.plan root leaseCall).call = leaseCall := by
  cases leaseCall with
  | takeLease request =>
      simp only [LeaseWorld.plan]
      split <;> rfl
  | releaseRunLease key =>
      simp only [LeaseWorld.plan]
      split <;> rfl
  | releaseWorkspaceLeases platform slot => rfl

theorem moved_granted {call : HolderCall} {request : LeaseRequest} {token : String}
    (h : Granted w root call request token w') : Moved w root call w' := by
  cases h with
  | refused hRefused => exact moved_setCall rfl (fun _ _ => rfl) rfl
  | set hLease hHolder hSlot hSame => exact moved_setCall rfl (fun _ _ => rfl) rfl
  | @taken granted kind hFree hGranted =>
      have hMoved : Moved w root call ((w.writeLease granted).setCall root
          { call with stage := .recording (.taken granted) ⟨request.id, token, kind⟩ }) :=
        moved_setCall rfl (fun _ _ => rfl) rfl
      exact ⟨hMoved.calls, hMoved.holders⟩

theorem moved_proceed {call : HolderCall} {token : String}
    (hStep : w.proceed root call token = some w') : Moved w root call w' := by
  unfold proceed at hStep
  split at hStep
  · cases hStep
    exact moved_setCall rfl (fun _ _ => rfl) (plan_call ..)
  · cases hStep
    refine moved_setCall (releaseHeld_rest ..).1 (fun other _ => ?_) rfl
    rw [(releaseHeld_rest ..).2]
  · cases hStep
    exact moved_setCall (forget_rest ..).1 (forget_rest ..).2 rfl
  · split at hStep <;> cases hStep <;> exact moved_setCall rfl (fun _ _ => rfl) rfl
  · cases hStep
    exact moved_setCall rfl (fun _ _ => rfl) rfl
  · cases hStep
    exact moved_setCall rfl (fun _ _ => rfl) rfl
  · cases hStep
    refine moved_setCall (releaseByRoot_rest ..).1 (fun other _ => ?_) rfl
    rw [(releaseByRoot_rest ..).2]
  · split at hStep
    · split at hStep
      · cases hStep
      · cases hStep
        exact moved_granted (granted_grant ..)
    · cases hStep
      exact moved_setCall rfl (fun _ _ => rfl) rfl
  · split at hStep <;> cases hStep
    refine moved_setCall rfl (fun other hOther => ?_) rfl
    rw [holders_writeHolder, if_neg hOther]
  · cases hStep
    exact ⟨⟨none, rfl, fun c hc => by cases hc⟩, fun _ _ => rfl⟩

theorem orderly_step (h : Orderly w) (hStep : leaseStep w a = some w') : Orderly w' := by
  refine ⟨tidy_step h.tidy hStep, ?_⟩
  intro root call request hCall hRequest
  -- unless the call itself moves, nobody gives its workspace a lease
  have hKept : w.calls root = some call → Frame w w' root → w'.holders root = w.holders root →
      Cleared w' root request call.stage := fun hBefore hFrame hHolders =>
    (h.cleared root call request hBefore hRequest).frame hFrame hHolders
  cases a with
  | tick =>
      cases hStep
      exact hKept hCall (frame_of_files rfl) rfl
  | begin actor leaseCall =>
      simp only [leaseStep] at hStep
      split at hStep
      · cases hStep
      · cases hStep
        rw [calls_setCall] at hCall
        split at hCall
        · cases hCall
          trivial
        · exact hKept hCall (frame_of_files rfl) rfl
  | proceed actor token =>
      obtain ⟨moving, hMoving, hStep⟩ := Option.bind_eq_some_iff.mp hStep
      by_cases hActor : root = actor
      · subst hActor
        have hSame : moving.call = .takeLease request → Cleared w' root request call.stage := by
          intro hRequest'
          have hBefore := h.cleared root moving request hMoving hRequest'
          rcases cleared_proceed h.tidy hRequest' hBefore hStep with hGone | ⟨_, hAfter, -, hDone⟩
          · rw [hCall] at hGone
            cases hGone
          · rw [hCall] at hAfter
            cases hAfter
            exact hDone
        obtain ⟨next, hCalls, hNext⟩ := (moved_proceed hStep).calls
        rw [hCalls, Function.update_self] at hCall
        exact hSame ((hNext call hCall).symm.trans hRequest)
      · obtain ⟨next, hCalls, -⟩ := (moved_proceed hStep).calls
        rw [hCalls, Function.update_of_ne hActor] at hCall
        have hFile := fileStep_proceed h.tidy hMoving hStep
        exact hKept hCall (frame_of_other hFile (Ne.symm hActor))
          ((moved_proceed hStep).holders root hActor)
  | readRecord r actor key minMs =>
      simp only [leaseStep] at hStep
      split at hStep <;> cases hStep <;> exact hKept hCall (frame_of_files rfl) rfl
  | raise r =>
      obtain ⟨raiseCall, hRaiseCall, rfl⟩ := Option.map_eq_some_iff.mp hStep
      have hRaised := raised_raise w r raiseCall
      have hFrame : Frame w (w.raise r raiseCall) root := frame_of_raised h.tidy hRaised
      generalize w.raise r raiseCall = after at hRaised hFrame hCall hKept
      cases hRaised with
      | lost _ => exact hKept hCall hFrame rfl
      | kept _ _ => exact hKept hCall hFrame rfl
      | raised _ _ => exact hKept hCall hFrame rfl

theorem orderly_run {junk : List String} {actions : List LeaseAction}
    (hRun : Machine.run leaseStep (LeaseWorld.initial junk) actions = some w) : Orderly w :=
  Machine.invariant_run (fun _ _ _ => orderly_step) (orderly_initial junk) hRun

/-! ## Grants -/

/-- The result a stage has, once it has one. -/
def LeaseStage.result : LeaseStage → Option TakeLeaseResult
  | .recording result _ => some result
  | .returned result => result
  | _ => none

/-- The lease a call was granted, once it was. -/
def HolderCall.granted (call : HolderCall) : Option DeviceLease :=
  call.stage.result.bind TakeLeaseResult.granted

/-- A lease on the device a `takeLease` asks for that is running. -/
structure RunsOn (w : LeaseWorld) (request : LeaseRequest) (l : DeviceLease) : Prop where
  platform : l.platform = request.platform
  id : l.id = request.id
  running : leaseIsExpired l w.now = false
  stored : ∃ path, w.lease path = some l

variable {l : DeviceLease}

theorem RunsOn.lease {request : LeaseRequest} (hTidy : Tidy w) (h : RunsOn w request l) :
    w.lease (deviceLeasePath request.platform request.id) = some l := by
  obtain ⟨path, hLease⟩ := h.stored
  rw [← h.platform, ← h.id]
  have hPath : deviceLeasePath l.platform l.id = path := (hTidy.lease hLease).1
  rw [hPath]
  exact hLease

/-- A grant finds no running lease of anyone else on the device. -/
theorem runsOn_granted {call call' : HolderCall} {request : LeaseRequest} {token : String}
    (hTidy : Tidy w) (hGrant : Granted w root call request token w')
    (hCall : w'.calls root = some call') (hSome : call'.granted.isSome)
    (hRuns : RunsOn w request l) : l.holder = root ∧ l.slotName = request.slot := by
  have hLease := hRuns.lease hTidy
  cases hGrant with
  | @refused result hRefused =>
      rw [calls_setCall_self] at hCall
      cases hCall
      cases result with
      | taken l => exact absurd rfl (hRefused l).1
      | set l => exact absurd rfl (hRefused l).2
      | held l => cases hSome
      | unreadable path => cases hSome
  | set hFound hHolder hSlot _ =>
      rw [hLease] at hFound
      cases hFound
      exact ⟨hHolder, hSlot⟩
  | taken hFree _ =>
      have hExpired := hFree l hLease
      rw [hRuns.running] at hExpired
      cases hExpired

theorem plan_granted (w : LeaseWorld) (root : String) (leaseCall : LeaseCall) :
    (w.plan root leaseCall).granted = none := by
  cases leaseCall with
  | takeLease request =>
      simp only [LeaseWorld.plan]
      split <;> rfl
  | releaseRunLease key =>
      simp only [LeaseWorld.plan]
      split
      · rfl
      · split <;> rfl
  | releaseWorkspaceLeases platform slot => rfl

/-- A call that was granted nothing yet is granted a lease only in its lease section. -/
theorem granted_proceed {call call' : HolderCall} {token : String}
    (hStep : w.proceed root call token = some w') (hNone : call.granted = none)
    (hCall : w'.calls root = some call') (hSome : call'.granted.isSome) :
    ∃ request, call.call = .takeLease request ∧ Granted w root call request token w' := by
  unfold proceed at hStep
  split at hStep
  · cases hStep
    rw [calls_setCall_self] at hCall
    cases hCall
    rw [plan_granted] at hSome
    cases hSome
  · cases hStep
    rw [calls_setCall_self] at hCall
    cases hCall
    cases hSome
  · cases hStep
    rw [calls_setCall_self] at hCall
    cases hCall
    cases hSome
  · split at hStep <;> cases hStep <;> rw [calls_setCall_self] at hCall <;> cases hCall <;>
      cases hSome
  · cases hStep
    rw [calls_setCall_self] at hCall
    cases hCall
    cases hSome
  · cases hStep
    rw [calls_setCall_self] at hCall
    cases hCall
    cases hSome
  · cases hStep
    rw [calls_setCall_self] at hCall
    cases hCall
    cases hSome
  · split at hStep
    · rename_i request hRequest
      split at hStep
      · cases hStep
      · cases hStep
        exact ⟨request, hRequest, granted_grant ..⟩
    · cases hStep
      rw [calls_setCall_self] at hCall
      cases hCall
      cases hSome
  · rename_i result record hStage
    split at hStep <;> cases hStep
    rw [calls_setCall_self] at hCall
    cases hCall
    rw [HolderCall.granted, hStage] at hNone
    have hSome' : (TakeLeaseResult.granted result).isSome := hSome
    rw [show TakeLeaseResult.granted result = none from hNone] at hSome'
    cases hSome'
  · cases hStep
    simp at hCall

/-- A step grants a lease only when nobody else's lease on the device is running. -/
theorem runsOn_step {call call' : HolderCall} {request : LeaseRequest} (hTidy : Tidy w)
    (hStep : leaseStep w a = some w') (hBefore : w.calls root = some call)
    (hNone : call.granted = none) (hCall : w'.calls root = some call')
    (hSome : call'.granted.isSome) (hRequest : call.call = .takeLease request)
    (hRuns : RunsOn w request l) : l.holder = root ∧ l.slotName = request.slot := by
  have hMoved : w'.calls root ≠ w.calls root := by
    rw [hBefore, hCall]
    rintro ⟨⟩
    rw [hNone] at hSome
    cases hSome
  cases a with
  | tick =>
      cases hStep
      exact absurd rfl hMoved
  | begin actor leaseCall =>
      simp only [leaseStep] at hStep
      split at hStep
      · cases hStep
      · cases hStep
        rw [calls_setCall] at hCall
        split at hCall
        · cases hCall
          cases hSome
        · rename_i hOther
          exact absurd (by rw [calls_setCall, if_neg hOther]) hMoved
  | proceed actor token =>
      obtain ⟨moving, hMoving, hStep⟩ := Option.bind_eq_some_iff.mp hStep
      by_cases hActor : root = actor
      · subst hActor
        rw [hBefore] at hMoving
        cases hMoving
        obtain ⟨request', hRequest', hGrant⟩ := granted_proceed hStep hNone hCall hSome
        rw [hRequest] at hRequest'
        cases hRequest'
        exact runsOn_granted hTidy hGrant hCall hSome hRuns
      · obtain ⟨next, hCalls, -⟩ := (moved_proceed hStep).calls
        exact absurd (by rw [hCalls, Function.update_of_ne hActor]) hMoved
  | readRecord r actor key minMs =>
      simp only [leaseStep] at hStep
      split at hStep <;> cases hStep <;> exact absurd rfl hMoved
  | raise r =>
      obtain ⟨raiseCall, hRaiseCall, rfl⟩ := Option.map_eq_some_iff.mp hStep
      have hRaised := raised_raise w r raiseCall
      generalize w.raise r raiseCall = after at hRaised hMoved
      cases hRaised with
      | lost _ => exact absurd rfl hMoved
      | kept _ _ => exact absurd rfl hMoved
      | raised _ _ => exact absurd rfl hMoved

/-! ## Other workspaces' leases -/

/-- The file of another workspace's lease stays as it is, unless that lease has expired and
the device is taken. -/
theorem file_of_other (hTidy : Tidy w) (hStep : leaseStep w a = some w')
    (hLease : w.lease path = some l) (hOther : a.runsFor w ≠ some l.holder) :
    w'.files.lookup path = w.files.lookup path ∨
      leaseIsExpired l w.now = true ∧ ∃ granted : DeviceLease,
        w'.files.lookup path = some (some granted) ∧ a.runsFor w = some granted.holder := by
  rcases leaseStep_cases hTidy hStep with hSame | ⟨actor, hActor, hFile⟩
  · rw [hSame]
    exact .inl rfl
  · have hNe : l.holder ≠ actor := by
      rintro rfl
      exact hOther hActor
    -- a removed or rewritten lease is one of the workspace the step runs for
    have hPath : ∀ {path' l'}, w.lease path' = some l' → l'.holder = actor → path ≠ path' := by
      rintro path' l' hLease' hHolder rfl
      rw [hLease] at hLease'
      cases hLease'
      exact hNe hHolder
    cases hFile with
    | same h =>
        rw [h]
        exact .inl rfl
    | remove hLease' hHolder h =>
        rw [h, lease_erase, if_neg (hPath hLease' hHolder)]
        exact .inl rfl
    | rewrite hLease' hHolder _ h =>
        rw [h, lease_insert, if_neg (hPath hLease' hHolder)]
        exact .inl rfl
    | @take granted hFree hHolder h =>
        rw [h, lease_insert]
        split
        · rename_i hTaken
          subst hTaken
          refine .inr ⟨hFree l hLease, granted, rfl, ?_⟩
          rw [hHolder]
          exact hActor
        · exact .inl rfl

/-- A `raiseLease` that answers `raised` leaves a lease with its own token in the file. -/
theorem lease_of_raised {r : Nat} {raiseCall : RaiseCall} (hTidy : Tidy w)
    (hCall : w.raises r = some raiseCall) (hStep : leaseStep w (.raise r) = some w')
    (hAnswer : w'.answered = some ⟨raiseCall, .raised l⟩) :
    ∃ l', w'.lease (deviceLeasePath raiseCall.platform raiseCall.record.id) = some l' ∧
      l'.token = raiseCall.record.token ∧ l'.holder = raiseCall.root := by
  have hOwner := hTidy.raises r raiseCall hCall
  obtain ⟨_, hCall', rfl⟩ := Option.map_eq_some_iff.mp hStep
  rw [hCall] at hCall'
  cases hCall'
  have hRaised := raised_raise w r raiseCall
  generalize w.raise r raiseCall = after at hRaised hAnswer
  cases hRaised with
  | lost hLost =>
      cases hAnswer
      exact absurd rfl (hLost l)
  | kept hLease hToken => exact ⟨_, hLease, hToken, hTidy.holder_eq hLease hToken hOwner⟩
  | @raised found expiresAt hLease hToken =>
      have hHolder := hTidy.holder_eq hLease hToken hOwner
      obtain ⟨raw, -, hParse⟩ := Option.bind_eq_some_iff.mp hLease
      obtain ⟨l', hRead, hSame⟩ :
          ∃ l', parseLease (some { found with expiresAt }) = some l' ∧ Same found l' :=
        parseLease_rewritten hParse
      refine ⟨l', ?_, hSame.token.trans hToken, hSame.holder.trans hHolder⟩
      have hPath : found.path = _ := (hTidy.lease hLease).1
      show (AList.lookup _ (AList.insert found.path _ w.files)).bind parseLease = some l'
      rw [hPath, AList.lookup_insert]
      exact hRead

/-! ## Exclusion -/

/-- Physical device leases are exclusive, whatever calls run at once.  A call is granted a
device when nobody else's lease on it is running; another workspace's lease file stays as
it is until the lease has expired; a raised lease is the caller's own; and a call that was
granted a lease returns with that lease as its workspace's only one for the slot, recorded
under the lease's token. -/
theorem leases_exclusive {junk : List String} {actions : List LeaseAction}
    (hRun : Machine.run leaseStep (LeaseWorld.initial junk) actions = some w) :
    (∀ a w' root call call' request l, leaseStep w a = some w' →
      w.calls root = some call → call.call = .takeLease request → call.granted = none →
      w'.calls root = some call' → call'.granted.isSome → RunsOn w request l →
      l.holder = root ∧ l.slotName = request.slot) ∧
    (∀ a w' path l, leaseStep w a = some w' → w.lease path = some l →
      a.runsFor w ≠ some l.holder →
      w'.files.lookup path = w.files.lookup path ∨
        leaseIsExpired l w.now = true ∧ ∃ granted : DeviceLease,
          w'.files.lookup path = some (some granted) ∧ a.runsFor w = some granted.holder) ∧
    (∀ r w' raiseCall l, w.raises r = some raiseCall → leaseStep w (.raise r) = some w' →
      w'.answered = some ⟨raiseCall, .raised l⟩ →
      ∃ l', w'.lease (deviceLeasePath raiseCall.platform raiseCall.record.id) = some l' ∧
        l'.token = raiseCall.record.token ∧ l'.holder = raiseCall.root) ∧
    (∀ root call request result lease, w.calls root = some call →
      call.call = .takeLease request → call.stage = .returned (some result) →
      result.granted = some lease →
      OnlyToken w root request lease.token ∧
        ∃ record, (w.holders root).lookup ⟨request.platform, request.slot⟩ = some record ∧
          record.token = lease.token) := by
  have hOrderly := orderly_run hRun
  refine ⟨?_, ?_, ?_, ?_⟩
  · intro a w' root call call' request l hStep hBefore hRequest hNone hCall hSome hRuns
    exact runsOn_step hOrderly.tidy hStep hBefore hNone hCall hSome hRequest hRuns
  · intro a w' path l hStep hLease hOther
    exact file_of_other hOrderly.tidy hStep hLease hOther
  · intro r w' raiseCall l hCall hStep hAnswer
    exact lease_of_raised hOrderly.tidy hCall hStep hAnswer
  · intro root call request result lease hCall hRequest hStage hGranted
    have hCleared := hOrderly.cleared root call request hCall hRequest
    rw [hStage] at hCleared
    exact hCleared lease hGranted

/-- A phone asked for a minute. -/
def phone : LeaseRequest := ⟨.ios, DEFAULT_DEVICE_SLOT, "phone", none, .declared, 60⟩

def phoneLease : DeviceLease := ⟨none, .ios, "phone", none, "/a", "t", some 0, 60⟩

/-- A workspace takes the phone on a machine without leases. -/
def takePhone : List LeaseAction :=
  .begin "/a" (.takeLease phone) :: List.replicate 5 (.proceed "/a" "t")

theorem leases_exclusive_takePhone :
    ∃ w, Machine.run leaseStep (.initial []) takePhone = some w ∧
      w.calls "/a" = some ⟨.takeLease phone, false, .returned (some (.taken phoneLease))⟩ ∧
      OnlyToken w "/a" phone "t" := by
  have hSome : (Machine.run leaseStep (.initial []) takePhone).map (·.calls "/a") =
      some (some ⟨.takeLease phone, false, .returned (some (.taken phoneLease))⟩) := by
    decide +kernel
  obtain ⟨w, hRun, hCall⟩ := Option.map_eq_some_iff.mp hSome
  have hReturned := (leases_exclusive hRun).2.2.2 "/a" _ phone _ phoneLease hCall rfl rfl rfl
  exact ⟨w, hRun, hCall, hReturned.1⟩

end Stim.Cli
