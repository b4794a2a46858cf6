import Stim.Cli.DeviceLease

/-!
# Who may touch a lease file

Tokens are drawn once, so a workspace's records and calls only ever name tokens of its own
leases.  From this follows what a step can do to the lease files (`FileStep`): it removes
or rewrites a lease of the workspace it runs for, or takes a device whose lease is gone
or has expired.
-/

namespace Stim.Cli

open LeaseWorld

variable {w w' : LeaseWorld}

/-! ## Parsing -/

/-- A lease reads back as it was written, but for a blank device name. -/
theorem parseLease_eq_some {raw : LeaseText} {lease : DeviceLease} :
    parseLease raw = some lease ↔ ∃ written, raw = some written ∧ (text written.id).isSome ∧
      (text written.holder).isSome ∧ (text written.token).isSome ∧
      written.slot.all isDeviceSlot = true ∧
      lease = { written with deviceName := written.deviceName.bind text } := by
  cases raw with
  | none => simp [parseLease]
  | some written =>
      simp only [parseLease, Option.some.injEq, exists_eq_left']
      constructor
      · intro h
        split at h
        · rename_i hValid
          cases h
          exact ⟨hValid.1, hValid.2.1, hValid.2.2.1, hValid.2.2.2, rfl⟩
        · cases h
      · rintro ⟨hId, hHolder, hToken, hSlot, rfl⟩
        rw [if_pos ⟨hId, hHolder, hToken, hSlot⟩]

/-- Two readings of one lease: only its expiry and its device's name may differ. -/
structure Same (l l' : DeviceLease) : Prop where
  platform : l'.platform = l.platform
  id : l'.id = l.id
  slot : l'.slot = l.slot
  holder : l'.holder = l.holder
  token : l'.token = l.token

theorem Same.refl (l : DeviceLease) : Same l l := ⟨rfl, rfl, rfl, rfl, rfl⟩

theorem Same.path {l l' : DeviceLease} (h : Same l l') : l'.path = l.path := by
  unfold DeviceLease.path
  rw [h.platform, h.id]

theorem Same.slotName {l l' : DeviceLease} (h : Same l l') : l'.slotName = l.slotName := by
  unfold DeviceLease.slotName
  rw [h.slot]

theorem same_of_parseLease {written lease : DeviceLease}
    (h : parseLease (some written) = some lease) : Same written lease := by
  obtain ⟨_, ⟨⟩, -, -, -, -, rfl⟩ := parseLease_eq_some.mp h
  exact ⟨rfl, rfl, rfl, rfl, rfl⟩

/-- A lease that was read is read again when it is written back. -/
theorem parseLease_rewritten {raw : LeaseText} {l : DeviceLease} {expiresAt : Nat}
    {deviceName : Option String} (h : parseLease raw = some l) :
    ∃ l', parseLease (some { l with deviceName, expiresAt }) = some l' ∧ Same l l' := by
  obtain ⟨written, rfl, hId, hHolder, hToken, hSlot, rfl⟩ := parseLease_eq_some.mp h
  exact ⟨_, parseLease_eq_some.mpr ⟨_, rfl, hId, hHolder, hToken, hSlot, rfl⟩,
    ⟨rfl, rfl, rfl, rfl, rfl⟩⟩

/-! ## Files after an update -/

theorem lease_insert {path path' : String} {raw : LeaseText} {files : LeaseFiles} :
    (files.insert path raw).lookup path' =
      if path' = path then some raw else files.lookup path' := by
  split
  · rename_i hEq
    rw [hEq, AList.lookup_insert]
  · rename_i hNe
    rw [AList.lookup_insert_ne hNe]

theorem lease_erase {path path' : String} {files : LeaseFiles} :
    (files.erase path).lookup path' = if path' = path then none else files.lookup path' := by
  split
  · rename_i hEq
    rw [hEq, AList.lookup_erase]
  · rename_i hNe
    rw [AList.lookup_erase_ne hNe]

@[simp] theorem calls_setCall (root root' : String) (call : HolderCall) :
    (w.setCall root call).calls root' = if root' = root then some call else w.calls root' := by
  simp [LeaseWorld.setCall, Function.update_apply]

theorem calls_setCall_self (w : LeaseWorld) (root : String) (call : HolderCall) :
    (w.setCall root call).calls root = some call := by
  rw [calls_setCall, if_pos rfl]

theorem holders_writeHolder (root root' : String) (records : HolderRecords) :
    (w.writeHolder root records).holders root' =
      if root' = root then records else w.holders root' := by
  simp [LeaseWorld.writeHolder, Function.update_apply]

/-! ## Tokens -/

/-- The records a stage still works with. -/
def LeaseStage.records : LeaseStage → List WorkspaceLeaseRecord
  | .releasing todo => todo.map Prod.snd
  | .forgetting _ record todo => record :: todo.map Prod.snd
  | .recording _ record => [record]
  | _ => []

/-- Every lease is in its device's file, and every token is its owner's. -/
structure Tidy (w : LeaseWorld) : Prop where
  files : ∀ path l, w.files.lookup path = some (some l) →
    l.path = path ∧ w.owner l.token = some l.holder
  holders : ∀ root key record, (w.holders root).lookup key = some record →
    w.owner record.token = some root
  calls : ∀ root call, w.calls root = some call → ∀ record ∈ call.stage.records,
    w.owner record.token = some root
  raises : ∀ r call, w.raises r = some call → w.owner call.record.token = some call.root

theorem Tidy.lease (h : Tidy w) {path : String} {l : DeviceLease} (hLease : w.lease path = some l) :
    l.path = path ∧ w.owner l.token = some l.holder := by
  obtain ⟨raw, hRaw, hParse⟩ := Option.bind_eq_some_iff.mp hLease
  cases raw with
  | none => cases hParse
  | some written =>
      have hSame := same_of_parseLease hParse
      obtain ⟨hPath, hOwner⟩ := h.files path written hRaw
      rw [hSame.path, hSame.token, hSame.holder]
      exact ⟨hPath, hOwner⟩

/-- A lease with a token of `root` is one of `root`. -/
theorem Tidy.holder_eq (h : Tidy w) {path root token : String} {l : DeviceLease}
    (hLease : w.lease path = some l) (hToken : l.token = token)
    (hOwner : w.owner token = some root) : l.holder = root := by
  have hLeaseOwner := (h.lease hLease).2
  rw [hToken, hOwner] at hLeaseOwner
  exact (Option.some.inj hLeaseOwner).symm

theorem tidy_initial (junk : List String) : Tidy (LeaseWorld.initial junk) := by
  have hJunk : ∀ (files : LeaseFiles), (∀ path l, files.lookup path ≠ some (some l)) →
      ∀ path l, (junk.foldl (fun files path => files.insert path none) files).lookup path ≠
        some (some l) := by
    induction junk with
    | nil => exact fun files h => h
    | cons path' junk ih =>
        intro files h
        refine ih (files.insert path' none) ?_
        intro path l
        rw [lease_insert]
        split
        · exact nofun
        · exact h path l
  refine ⟨?_, ?_, ?_, ?_⟩
  · intro path l hLookup
    exact absurd hLookup (hJunk ∅ (fun path l => by simp [AList.lookup_empty]) path l)
  · intro root key record hLookup
    rw [LeaseWorld.initial, AList.lookup_empty] at hLookup
    cases hLookup
  · intro root call hCall
    cases hCall
  · intro r call hCall
    cases hCall

/-! ## What a step does to the files -/

/-- What a step that runs for `root` can do to the lease files. -/
inductive FileStep (w : LeaseWorld) (root : String) (w' : LeaseWorld) : Prop where
  | same (h : w'.files = w.files)
  | remove {path : String} {l : DeviceLease} (hLease : w.lease path = some l)
      (hHolder : l.holder = root) (h : w'.files = w.files.erase path)
  | rewrite {path : String} {l l' : DeviceLease} (hLease : w.lease path = some l)
      (hHolder : l.holder = root) (hSame : Same l l')
      (h : w'.files = AList.insert path (some l') w.files)
  | take {granted : DeviceLease} (hFree : ∀ l, w.lease granted.path = some l → leaseIsExpired l w.now = true)
      (hHolder : granted.holder = root)
      (h : w'.files = AList.insert granted.path (some granted) w.files)

variable {root token : String} {call : HolderCall}

theorem FileStep.of_files {v : LeaseWorld} (h : FileStep w root v) (hFiles : w'.files = v.files) :
    FileStep w root w' := by
  cases h with
  | same h => exact .same (hFiles.trans h)
  | remove hLease hHolder h => exact .remove hLease hHolder (hFiles.trans h)
  | rewrite hLease hHolder hSame h => exact .rewrite hLease hHolder hSame (hFiles.trans h)
  | take hFree hHolder h => exact .take hFree hHolder (hFiles.trans h)

theorem fileStep_releaseHeld (key : SlotKey) {record : WorkspaceLeaseRecord} (h : Tidy w)
    (hOwner : w.owner record.token = some root) : FileStep w root (w.releaseHeld key record) := by
  unfold releaseHeld
  dsimp only
  split
  · rename_i current hLease
    split
    · rename_i hToken
      exact .remove hLease (h.holder_eq hLease hToken hOwner) rfl
    · exact .same rfl
  · exact .same rfl

theorem fileStep_releaseByRoot (platform : LeasePlatform) (id : String) :
    FileStep w root (w.releaseByRoot root platform id) := by
  unfold releaseByRoot
  dsimp only
  split
  · rename_i current hLease
    split
    · rename_i hHolder
      exact .remove hLease hHolder rfl
    · exact .same rfl
  · exact .same rfl

/-- What the lease section of `takeLease` found and did. -/
inductive Granted (w : LeaseWorld) (root : String) (call : HolderCall) (request : LeaseRequest)
    (token : String) : LeaseWorld → Prop where
  | refused {result} (hRefused : ∀ l, result ≠ TakeLeaseResult.taken l ∧ result ≠ .set l) :
      Granted w root call request token
        (w.setCall root { call with stage := .returned (some result) })
  | set {l kept kind}
      (hLease : w.lease (deviceLeasePath request.platform request.id) = some l)
      (hHolder : l.holder = root) (hSlot : l.slotName = request.slot) (hSame : Same l kept) :
      Granted w root call request token ((w.writeLease kept).setCall root
        { call with stage := .recording (.set kept) ⟨request.id, kept.token, kind⟩ })
  | taken {granted kind}
      (hFree : ∀ l, w.lease (deviceLeasePath request.platform request.id) = some l →
        leaseIsExpired l w.now = true)
      (hGranted : granted.platform = request.platform ∧ granted.id = request.id ∧
        granted.slotName = request.slot ∧ granted.holder = root ∧ granted.token = token) :
      Granted w root call request token { (w.writeLease granted).setCall root
        { call with stage := .recording (.taken granted) ⟨request.id, token, kind⟩ } with
        owner := Function.update w.owner token (some root) }

theorem granted_grant (w : LeaseWorld) (root : String) (call : HolderCall)
    (request : LeaseRequest) (token : String) :
    Granted w root call request token (w.grant root call request token) := by
  have hName : ((if request.slot = DEFAULT_DEVICE_SLOT then none else some request.slot :
      Option String).getD DEFAULT_DEVICE_SLOT) = request.slot := by
    split
    · rename_i hDefault
      exact hDefault.symm
    · rfl
  unfold grant leaseGrant
  dsimp only
  cases hRaw : w.files.lookup (deviceLeasePath request.platform request.id) with
  | none =>
      refine .taken ?_ ⟨rfl, rfl, hName, rfl, rfl⟩
      intro l hLease
      rw [LeaseWorld.lease, hRaw] at hLease
      cases hLease
  | some raw =>
      have hLease : w.lease (deviceLeasePath request.platform request.id) = parseLease raw := by
        rw [LeaseWorld.lease, hRaw]
        rfl
      dsimp only [Option.map_some]
      cases hParse : parseLease raw with
      | none => exact .refused (fun l => ⟨nofun, nofun⟩)
      | some l =>
          dsimp only
          by_cases hExpired : leaseIsExpired l w.now = true
          · rw [if_pos hExpired]
            refine .taken ?_ ⟨rfl, rfl, hName, rfl, rfl⟩
            intro l' hLease'
            rw [hLease, hParse] at hLease'
            cases hLease'
            exact hExpired
          · rw [if_neg hExpired]
            by_cases hOther : l.holder ≠ root ∨ l.slotName ≠ request.slot
            · rw [if_pos hOther]
              exact .refused (fun l => ⟨nofun, nofun⟩)
            · rw [if_neg hOther]
              rw [not_or, not_not, not_not] at hOther
              exact .set (hLease.trans hParse) hOther.1 hOther.2 ⟨rfl, rfl, rfl, rfl, rfl⟩

theorem fileStep_granted {request : LeaseRequest} (h : Tidy w)
    (hGrant : Granted w root call request token w') : FileStep w root w' := by
  cases hGrant with
  | refused hRefused => exact .same rfl
  | set hLease hHolder hSlot hSame =>
      have hPath := (h.lease hLease).1
      refine .rewrite hLease hHolder hSame ?_
      rw [← hPath, ← hSame.path]
      rfl
  | @taken granted kind hFree hGranted =>
      have hPath : granted.path = deviceLeasePath request.platform request.id := by
        rw [DeviceLease.path, hGranted.1, hGranted.2.1]
      exact .take (hPath ▸ hFree) hGranted.2.2.2.1 rfl

/-- A step inside a holder lock touches only files the workspace may touch. -/
theorem fileStep_proceed (h : Tidy w) (hCall : w.calls root = some call)
    (hStep : w.proceed root call token = some w') : FileStep w root w' := by
  have hRecords := h.calls root call hCall
  unfold proceed at hStep
  split at hStep
  · cases hStep
    exact .same rfl
  · rename_i key record todo hStage
    cases hStep
    rw [hStage] at hRecords
    have hReleased := fileStep_releaseHeld key h (hRecords record (List.mem_cons_self ..))
    exact hReleased.of_files rfl
  · cases hStep
    refine .same ?_
    unfold LeaseWorld.forget
    dsimp only
    split <;> rfl
  · split at hStep <;> cases hStep <;> exact .same rfl
  · cases hStep
    exact .same rfl
  · cases hStep
    exact .same rfl
  · cases hStep
    exact (fileStep_releaseByRoot _ _).of_files rfl
  · split at hStep
    · split at hStep
      · cases hStep
      · cases hStep
        exact fileStep_granted h (granted_grant w root call _ token)
    · cases hStep
      exact .same rfl
  · split at hStep <;> cases hStep
    exact .same rfl
  · cases hStep
    exact .same rfl

/-- What the lease section of `raiseLease` found and did. -/
inductive Raised (w : LeaseWorld) (r : Nat) (raiseCall : RaiseCall) : LeaseWorld → Prop where
  | lost {result} (hLost : ∀ l, result ≠ RaiseLeaseResult.raised l) :
      Raised w r raiseCall { w with
        raises := Function.update w.raises r none, answered := some ⟨raiseCall, result⟩ }
  | kept {l} (hLease : w.lease (deviceLeasePath raiseCall.platform raiseCall.record.id) = some l)
      (hToken : l.token = raiseCall.record.token) :
      Raised w r raiseCall { w with
        raises := Function.update w.raises r none, answered := some ⟨raiseCall, .raised l⟩ }
  | raised {l expiresAt}
      (hLease : w.lease (deviceLeasePath raiseCall.platform raiseCall.record.id) = some l)
      (hToken : l.token = raiseCall.record.token) :
      Raised w r raiseCall { w.writeLease { l with expiresAt } with
        raises := Function.update w.raises r none
        answered := some ⟨raiseCall, .raised { l with expiresAt }⟩ }

theorem raised_raise (w : LeaseWorld) (r : Nat) (raiseCall : RaiseCall) :
    Raised w r raiseCall (w.raise r raiseCall) := by
  unfold LeaseWorld.raise leaseRaise
  dsimp only
  cases hLease : w.lease (deviceLeasePath raiseCall.platform raiseCall.record.id) with
  | none => exact .lost (fun l => nofun)
  | some l =>
      dsimp only
      by_cases hToken : l.token = raiseCall.record.token
      · rw [if_neg (not_not.mpr hToken)]
        by_cases hKept : w.now + raiseCall.minMs ≤ l.expiresAt
        · rw [if_pos hKept]
          exact .kept hLease hToken
        · rw [if_neg hKept]
          exact .raised hLease hToken
      · rw [if_pos hToken]
        exact .lost (fun l => nofun)

theorem fileStep_raised {r : Nat} {raiseCall : RaiseCall} (h : Tidy w)
    (hCall : w.raises r = some raiseCall) (hRaise : Raised w r raiseCall w') :
    FileStep w raiseCall.root w' := by
  cases hRaise with
  | lost hLost => exact .same rfl
  | kept hLease hToken => exact .same rfl
  | @raised l expiresAt hLease hToken =>
      have hSame : Same l { l with expiresAt } := ⟨rfl, rfl, rfl, rfl, rfl⟩
      refine .rewrite hLease (h.holder_eq hLease hToken (h.raises r raiseCall hCall)) hSame ?_
      rw [← (h.lease hLease).1]
      rfl

/-! ## The tokens stay in order -/

section Tidying

variable {path : String}

theorem Tidy.setCall (h : Tidy w)
    (hRecords : ∀ record ∈ call.stage.records, w.owner record.token = some root) :
    Tidy (w.setCall root call) where
  files := h.files
  holders := h.holders
  calls root' call' hCall' := by
    rw [calls_setCall] at hCall'
    split at hCall'
    · rename_i hRoot
      subst hRoot
      cases hCall'
      exact hRecords
    · exact h.calls root' call' hCall'
  raises := h.raises

theorem Tidy.removeLease (h : Tidy w) : Tidy (w.removeLease path) where
  files path' l hLookup := by
    rw [LeaseWorld.removeLease, lease_erase] at hLookup
    split at hLookup
    · cases hLookup
    · exact h.files path' l hLookup
  holders := h.holders
  calls := h.calls
  raises := h.raises

theorem Tidy.writeLease (h : Tidy w) {l : DeviceLease} (hOwner : w.owner l.token = some l.holder) :
    Tidy (w.writeLease l) where
  files path' l' hLookup := by
    rw [LeaseWorld.writeLease, lease_insert] at hLookup
    split at hLookup
    · rename_i hPath
      cases hLookup
      exact ⟨hPath.symm, hOwner⟩
    · exact h.files path' l' hLookup
  holders := h.holders
  calls := h.calls
  raises := h.raises

theorem Tidy.writeHolder (h : Tidy w) {records : HolderRecords}
    (hRecords : ∀ key record, records.lookup key = some record →
      w.owner record.token = some root) : Tidy (w.writeHolder root records) where
  files := h.files
  holders root' key record hLookup := by
    rw [holders_writeHolder] at hLookup
    split at hLookup
    · rename_i hRoot
      subst hRoot
      exact hRecords key record hLookup
    · exact h.holders root' key record hLookup
  calls := h.calls
  raises := h.raises

/-- A new token is nobody's yet. -/
theorem Tidy.draw (h : Tidy w) (hFresh : w.owner token = none) :
    Tidy { w with owner := Function.update w.owner token (some root) } := by
  have hKept : ∀ {t r : String}, w.owner t = some r →
      Function.update w.owner token (some root) t = some r := by
    intro t r ht
    have hNe : t ≠ token := by
      rintro rfl
      rw [hFresh] at ht
      cases ht
    rw [Function.update_of_ne hNe]
    exact ht
  exact ⟨fun path l hLookup => ⟨(h.files path l hLookup).1, hKept (h.files path l hLookup).2⟩,
    fun r key record hLookup => hKept (h.holders r key record hLookup),
    fun r c hCall record hRecord => hKept (h.calls r c hCall record hRecord),
    fun r c hCall => hKept (h.raises r c hCall)⟩

theorem Tidy.releaseHeld (h : Tidy w) (key : SlotKey) (record : WorkspaceLeaseRecord) :
    Tidy (w.releaseHeld key record) := by
  unfold LeaseWorld.releaseHeld
  dsimp only
  split
  · split
    · exact h.removeLease
    · exact h
  · exact h

theorem Tidy.releaseByRoot (h : Tidy w) (platform : LeasePlatform) (id : String) :
    Tidy (w.releaseByRoot root platform id) := by
  unfold LeaseWorld.releaseByRoot
  dsimp only
  split
  · split
    · exact h.removeLease
    · exact h
  · exact h

theorem Tidy.forget (h : Tidy w) (key : SlotKey) (record : WorkspaceLeaseRecord) :
    Tidy (w.forget root key record) := by
  unfold LeaseWorld.forget
  dsimp only
  split
  · refine h.writeHolder ?_
    intro key' record' hLookup
    refine h.holders root key' record' ?_
    by_cases hKey : key' = key
    · rw [hKey, AList.lookup_erase] at hLookup
      cases hLookup
    · rwa [AList.lookup_erase_ne hKey] at hLookup
  · exact h

theorem owner_releaseHeld (key : SlotKey) (record : WorkspaceLeaseRecord) :
    (w.releaseHeld key record).owner = w.owner := by
  unfold LeaseWorld.releaseHeld
  dsimp only
  split
  · split <;> rfl
  · rfl

theorem owner_forget (key : SlotKey) (record : WorkspaceLeaseRecord) :
    (w.forget root key record).owner = w.owner := by
  unfold LeaseWorld.forget
  dsimp only
  split <;> rfl

/-- A call starts from records of its own workspace. -/
theorem plan_records (h : Tidy w) (leaseCall : LeaseCall) :
    ∀ record ∈ (w.plan root leaseCall).stage.records, w.owner record.token = some root := by
  intro record hRecord
  cases leaseCall with
  | takeLease request =>
      simp only [LeaseWorld.plan] at hRecord
      split at hRecord
      · cases hRecord
      · rename_i previous hLookup
        by_cases hId : previous.id = request.id
        · simp [LeaseStage.records, hId] at hRecord
        · simp only [LeaseStage.records, if_neg hId, List.map_cons, List.map_nil,
            List.mem_singleton] at hRecord
          rw [hRecord]
          exact h.holders root _ previous hLookup
  | releaseRunLease key =>
      simp only [LeaseWorld.plan] at hRecord
      split at hRecord
      · cases hRecord
      · rename_i held hLookup
        by_cases hKind : held.kind = .run
        · simp only [if_pos hKind, LeaseStage.records, List.map_cons, List.map_nil,
            List.mem_singleton] at hRecord
          rw [hRecord]
          exact h.holders root key held hLookup
        · simp [if_neg hKind, LeaseStage.records] at hRecord
  | releaseWorkspaceLeases platform slot =>
      simp only [LeaseWorld.plan, LeaseStage.records, List.map_map, List.mem_map,
        List.mem_filter, Function.comp_apply] at hRecord
      obtain ⟨⟨key, held⟩, ⟨hEntry, -⟩, rfl⟩ := hRecord
      exact h.holders root key held (AList.mem_lookup_iff.mpr hEntry)

theorem tidy_granted {request : LeaseRequest} (h : Tidy w) (hFresh : w.owner token = none)
    (hGrant : Granted w root call request token w') : Tidy w' := by
  cases hGrant with
  | refused hRefused => exact h.setCall nofun
  | @set l kept kind hLease hHolder hSlot hSame =>
      have hOwner : w.owner kept.token = some kept.holder := by
        rw [hSame.token, hSame.holder]
        exact (h.lease hLease).2
      refine (h.writeLease hOwner).setCall ?_
      intro record hRecord
      rw [List.mem_singleton.mp hRecord]
      show w.owner kept.token = some root
      rw [hOwner, hSame.holder, hHolder]
  | @taken granted kind hFree hGranted =>
      have hDrawn : Tidy { w with owner := Function.update w.owner token (some root) } :=
        h.draw hFresh
      have hOwner : Function.update w.owner token (some root) granted.token =
          some granted.holder := by
        rw [hGranted.2.2.2.2, hGranted.2.2.2.1, Function.update_self]
      refine (hDrawn.writeLease hOwner).setCall ?_
      intro record hRecord
      rw [List.mem_singleton.mp hRecord]
      exact Function.update_self ..

theorem tidy_proceed (h : Tidy w) (hCall : w.calls root = some call)
    (hStep : w.proceed root call token = some w') : Tidy w' := by
  have hRecords := h.calls root call hCall
  unfold proceed at hStep
  split at hStep
  · cases hStep
    exact h.setCall (plan_records h call.call)
  · rename_i key record todo hStage
    cases hStep
    refine (h.releaseHeld key record).setCall ?_
    rw [hStage] at hRecords
    rw [owner_releaseHeld]
    exact hRecords
  · rename_i key record todo hStage
    cases hStep
    refine (h.forget key record).setCall ?_
    rw [hStage] at hRecords
    rw [owner_forget]
    exact fun other hOther => hRecords other (List.mem_cons_of_mem _ hOther)
  · split at hStep <;> cases hStep <;> exact h.setCall nofun
  · cases hStep
    exact h.setCall nofun
  · cases hStep
    exact h.setCall nofun
  · cases hStep
    exact (h.releaseByRoot _ _).setCall nofun
  · split at hStep
    · split at hStep
      · cases hStep
      · rename_i hFresh
        cases hStep
        exact tidy_granted h (Option.not_isSome_iff_eq_none.mp hFresh) (granted_grant ..)
    · cases hStep
      exact h.setCall nofun
  · rename_i result record hStage
    split at hStep
    · rename_i request _
      cases hStep
      refine Tidy.setCall (h.writeHolder ?_) nofun
      intro key' record' hLookup
      by_cases hKey : key' = ⟨request.platform, request.slot⟩
      · rw [hKey, AList.lookup_insert] at hLookup
        cases hLookup
        rw [hStage] at hRecords
        exact hRecords record (List.mem_singleton_self _)
      · rw [AList.lookup_insert_ne hKey] at hLookup
        exact h.holders root key' record' hLookup
    · cases hStep
  · cases hStep
    refine ⟨h.files, h.holders, ?_, h.raises⟩
    intro root' call' hCall'
    simp only [Function.update_apply] at hCall'
    split at hCall'
    · cases hCall'
    · exact h.calls root' call' hCall'

theorem tidy_raised {r : Nat} {raiseCall : RaiseCall} (h : Tidy w)
    (hRaise : Raised w r raiseCall w') : Tidy w' := by
  have hRaises : ∀ r' c, Function.update w.raises r none r' = some c →
      w.owner c.record.token = some c.root := by
    intro r' c hCall
    by_cases hSame : r' = r
    · simp [hSame] at hCall
    · rw [Function.update_of_ne hSame] at hCall
      exact h.raises r' c hCall
  cases hRaise with
  | lost hLost => exact ⟨h.files, h.holders, h.calls, hRaises⟩
  | kept hLease hToken => exact ⟨h.files, h.holders, h.calls, hRaises⟩
  | @raised l expiresAt hLease hToken =>
      have hWritten := h.writeLease (l := { l with expiresAt }) (h.lease hLease).2
      exact ⟨hWritten.files, hWritten.holders, hWritten.calls, hRaises⟩

theorem tidy_step {a : LeaseAction} (h : Tidy w) (hStep : leaseStep w a = some w') : Tidy w' := by
  cases a with
  | tick =>
      cases hStep
      exact ⟨h.files, h.holders, h.calls, h.raises⟩
  | begin root leaseCall =>
      simp only [leaseStep] at hStep
      split at hStep
      · cases hStep
      · cases hStep
        exact h.setCall nofun
  | proceed root token =>
      obtain ⟨call, hCall, hStep⟩ := Option.bind_eq_some_iff.mp hStep
      exact tidy_proceed h hCall hStep
  | readRecord r root key minMs =>
      simp only [leaseStep] at hStep
      split at hStep
      · cases hStep
        exact h
      · rename_i record hLookup
        cases hStep
        refine ⟨h.files, h.holders, h.calls, ?_⟩
        intro r' c hCall
        simp only [Function.update_apply] at hCall
        split at hCall
        · cases hCall
          exact h.holders root key record hLookup
        · exact h.raises r' c hCall
  | raise r =>
      obtain ⟨raiseCall, hCall, rfl⟩ := Option.map_eq_some_iff.mp hStep
      exact tidy_raised h (raised_raise w r raiseCall)

end Tidying

end Stim.Cli
