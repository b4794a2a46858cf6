import Stim.Cli.BuildSession

/-!
# What a client's job processes rely on

The blobs in the directory are right and are never lost, and a partial upload is written only by
the process that drew its UUID.
-/

namespace Stim.Cli.BuildSession

open Interleaving (Safe)

/-! ## Requests that completed a manifest -/

/-- Refused before the session looked at its manifest. -/
def Exchange.declined (exchange : Exchange) : Bool :=
  match exchange.answer with
  | .ok _ => false
  | .error refusal =>
      refusal.code = .buildBusy || !validRepo exchange.params.repo ||
        exchange.params.files.isNone || exchange.params.done.isNone

/-- A page that ended its manifest. -/
def Exchange.completes (exchange : Exchange) : Bool :=
  match exchange.answer with
  | .ok _ => exchange.params.done = some true
  | .error _ => false

/-- The last `build.sync` of `repo` that was not declined completed its manifest. -/
def Completed (repo : String) (synced : List Exchange) : Prop :=
  ∃ last, (synced.filter fun e => e.params.repo = repo && !e.declined).getLast? = some last ∧
    last.completes

/-- A finished manifest is what the last request that was not declined finished. -/
def Synced (session : Session) (synced : List Exchange) : Prop :=
  session.done = true →
    ∃ last, (synced.filter fun e => !e.declined).getLast? = some last ∧
      session.repo = some last.params.repo ∧ last.completes

variable {synced : List Exchange} {session : Session}

theorem Synced.completed {repo : String} (h : Synced session synced) (hDone : session.done = true)
    (hRepo : session.repo = some repo) : Completed repo synced := by
  obtain ⟨last, hLast, hSession, hCompletes⟩ := h hDone
  have hName : last.params.repo = repo := Option.some.inj (hSession.symm.trans hRepo)
  refine ⟨last, ?_, hCompletes⟩
  obtain ⟨before, hBefore⟩ := List.getLast?_eq_some_iff.mp hLast
  rw [← List.filter_filter, hBefore, List.filter_append, List.getLast?_append]
  simp [hName]

theorem synced_fresh (synced : List Exchange) : Synced .fresh synced := by
  intro h
  cases h

/-- A declined request changes nothing. -/
theorem Synced.append_declined {e : Exchange} (h : Synced session synced)
    (hDeclined : e.declined = true) : Synced session (synced ++ [e]) := by
  simpa [Synced, List.filter_append, hDeclined] using h

/-- The session after a request that reached its manifest. -/
theorem synced_append {e : Exchange} (hRepo : session.repo = some e.params.repo)
    (hDone : session.done = true → e.completes = true) : Synced session (synced ++ [e]) := by
  intro h
  have hCompletes := hDone h
  have hNot : e.declined = false := by
    unfold Exchange.declined
    unfold Exchange.completes at hCompletes
    split
    · rfl
    · rename_i hAnswer
      rw [hAnswer] at hCompletes
      cases hCompletes
  refine ⟨e, ?_, hRepo, hCompletes⟩
  simp [List.filter_append, hNot]

/-! ## The contract -/

/-- The partial upload of this name belongs to the process. -/
def Drew (p : JobPid) (tmp : Uuid) (w : World) : Prop := (tmp, p) ∈ w.drawn

structure Rely (p : JobPid) (w w' : World) : Prop where
  alive : w'.alive p = w.alive p
  session : w'.sessions p = w.sessions p
  synced : w'.synced p = w.synced p
  drawn : ∀ {tmp}, Drew p tmp w → Drew p tmp w'
  tmps : ∀ {tmp}, Drew p tmp w → w'.tmps tmp = w.tmps tmp
  blobs : ∀ {sha256}, (w.blobs sha256).isSome → (w'.blobs sha256).isSome

/-- Every blob that was there still is. -/
def Grows (w w' : World) : Prop :=
  ∀ sha256, (w.blobs sha256).isSome → (w'.blobs sha256).isSome

theorem Rely.refl (p : JobPid) (w : World) : Rely p w w :=
  ⟨rfl, rfl, rfl, id, fun _ => rfl, id⟩

theorem Rely.trans {p : JobPid} {u v w : World} (h : Rely p u v) (h' : Rely p v w) : Rely p u w :=
  ⟨h'.alive.trans h.alive, h'.session.trans h.session, h'.synced.trans h.synced,
    fun hDrew => h'.drawn (h.drawn hDrew),
    fun hDrew => (h'.tmps (h.drawn hDrew)).trans (h.tmps hDrew),
    fun hBlob => h'.blobs (h.blobs hBlob)⟩

def Launch.Sound (w : World) (launch : Launch) : Prop :=
  Completed launch.repo launch.synced ∧
    ∀ file ∈ launch.manifest, (w.blobs file.sha256).isSome

structure Inv (host : Host) (w : World) : Prop where
  blobs : ∀ sha256 content, w.blobs sha256 = some content → host.sha256 content = sha256
  tmps : ∀ tmp, (w.tmps tmp).isSome → tmp ∈ w.drawn.map Prod.fst
  drawn : (w.drawn.map Prod.fst).Nodup
  launches : ∀ launch ∈ w.launches, launch.Sound w

def contract (host : Host) : Interleaving.Contract JobPid World where
  inv := Inv host
  rely := Rely
  rely_refl := Rely.refl
  rely_trans := Rely.trans

section Rules

variable {host : Host} {roomy : JobPid → Bool} {p q : JobPid} {w w' : World}

variable {tmp : Uuid}

theorem Inv.owner (h : Inv host w) (hp : Drew p tmp w) (hq : Drew q tmp w) : q = p :=
  congrArg Prod.snd (List.inj_on_of_nodup_map h.drawn hq hp rfl)

theorem Launch.Sound.mono {launch : Launch} (h : launch.Sound w)
    (hBlobs : ∀ {sha256}, (w.blobs sha256).isSome → (w'.blobs sha256).isSome) : launch.Sound w' :=
  ⟨h.1, fun file hFile => hBlobs (h.2 file hFile)⟩

theorem Inv.frame (h : Inv host w) (hBlobs : w'.blobs = w.blobs) (hTmps : w'.tmps = w.tmps)
    (hDrawn : w'.drawn = w.drawn) (hLaunches : w'.launches = w.launches) : Inv host w' := by
  refine ⟨?_, ?_, ?_, ?_⟩
  · rw [hBlobs]
    exact h.blobs
  · rw [hTmps, hDrawn]
    exact h.tmps
  · rw [hDrawn]
    exact h.drawn
  · rw [hLaunches]
    intro launch hLaunch
    refine (h.launches launch hLaunch).mono ?_
    rw [hBlobs]
    exact id

/-- A step that touches neither a partial upload nor a blob nor another process. -/
theorem guar_private (h : Inv host w) (hBlobs : w'.blobs = w.blobs) (hTmps : w'.tmps = w.tmps)
    (hDrawn : w'.drawn = w.drawn) (hLaunches : w'.launches = w.launches)
    (hAlive : ∀ q, q ≠ p → w'.alive q = w.alive q)
    (hSessions : ∀ q, q ≠ p → w'.sessions q = w.sessions q)
    (hSynced : ∀ q, q ≠ p → w'.synced q = w.synced q) : (contract host).Guar p w w' where
  inv := h.frame hBlobs hTmps hDrawn hLaunches
  others q hq := by
    refine ⟨hAlive q hq, hSessions q hq, hSynced q hq, ?_, ?_, ?_⟩
    · unfold Drew
      rw [hDrawn]
      exact id
    · intro _ _
      rw [hTmps]
    · rw [hBlobs]
      exact id

/-- A step that changes the process's own partial upload. -/
theorem guar_tmp {data : Option Bytes} (h : Inv host w) (hDrew : Drew p tmp w) :
    (contract host).Guar p w { w with tmps := Function.update w.tmps tmp data } where
  inv := by
    refine ⟨h.blobs, ?_, h.drawn, h.launches⟩
    intro tmp' hSome
    by_cases hTmp : tmp' = tmp
    · rw [hTmp]
      exact List.mem_map_of_mem hDrew
    · exact h.tmps tmp' (by simpa [Function.update_of_ne hTmp] using hSome)
  others q hq := by
    refine ⟨rfl, rfl, rfl, id, ?_, id⟩
    intro tmp' hOther
    refine Function.update_of_ne ?_ _ _
    rintro rfl
    exact hq (h.owner hDrew hOther)

theorem guar_randomUUID (h : Inv host w) (hNew : tmp ∉ w.drawn.map Prod.fst) :
    (contract host).Guar p w { w with drawn := (tmp, p) :: w.drawn } where
  inv := by
    refine ⟨h.blobs, ?_, List.nodup_cons.mpr ⟨hNew, h.drawn⟩, h.launches⟩
    exact fun tmp' hSome => List.mem_cons_of_mem _ (h.tmps tmp' hSome)
  others _ _ := ⟨rfl, rfl, rfl, List.mem_cons_of_mem _, fun _ => rfl, id⟩

/-- A finished upload is moved to the path of the digest it hashes to. -/
theorem guar_renameSync {content : Bytes} (h : Inv host w) (hDrew : Drew p tmp w)
    (hTmp : w.tmps tmp = some content) :
    (contract host).Guar p w { w with
      tmps := Function.update w.tmps tmp none
      blobs := Function.update w.blobs (host.sha256 content) (w.tmps tmp) } := by
  have hBlobs : ∀ {sha256}, (w.blobs sha256).isSome →
      (Function.update w.blobs (host.sha256 content) (w.tmps tmp) sha256).isSome := by
    intro sha256 hSome
    by_cases hSha : sha256 = host.sha256 content
    · rw [hSha, Function.update_self, hTmp]
      rfl
    · rwa [Function.update_of_ne hSha]
  have hRest := (guar_tmp h hDrew : (contract host).Guar p w
    { w with tmps := Function.update w.tmps tmp none })
  refine ⟨⟨?_, hRest.inv.tmps, h.drawn, ?_⟩, ?_⟩
  · intro sha256 content' hContent
    change Function.update w.blobs (host.sha256 content) (w.tmps tmp) sha256 = _ at hContent
    by_cases hSha : sha256 = host.sha256 content
    · rw [hSha, Function.update_self, hTmp] at hContent
      rw [hSha, Option.some.inj hContent]
    · rw [Function.update_of_ne hSha] at hContent
      exact h.blobs sha256 content' hContent
  · exact fun launch hLaunch => (h.launches launch hLaunch).mono hBlobs
  · intro q hq
    have hOther := hRest.others q hq
    exact ⟨rfl, rfl, rfl, id, hOther.tmps, hBlobs⟩

theorem guar_launch {repo : String} {manifest : List BuildFile} (h : Inv host w)
    (hCompleted : Completed repo (w.synced p))
    (hBlobs : ∀ file ∈ manifest, (w.blobs file.sha256).isSome) :
    (contract host).Guar p w { w with
      launches := w.launches ++ [⟨p, repo, manifest, w.synced p⟩] } where
  inv := by
    refine ⟨h.blobs, h.tmps, h.drawn, ?_⟩
    intro launch hLaunch
    rcases List.mem_append.mp hLaunch with hOld | hNew
    · exact (h.launches launch hOld).mono id
    · rw [List.mem_singleton.mp hNew]
      exact ⟨hCompleted, hBlobs⟩
  others _ _ := ⟨rfl, rfl, rfl, id, fun _ => rfl, id⟩

/-! ## One rule an operation -/

abbrev SafeCode (host : Host) (roomy : JobPid → Bool) (p : JobPid) {α : Type} (code : Code α)
    (Q : α → World → Prop) (w : World) : Prop :=
  Safe (system host roomy) (contract host) p code Q w

variable {α : Type} {Q : α → World → Prop}

/-- No program loses a blob. -/
theorem SafeCode.grows {code : Code α} (h : SafeCode host roomy p code Q w) :
    SafeCode host roomy p code (fun a v => Q a v ∧ Grows w v) w := by
  refine Safe.track (R := Grows) ?_ ?_ ?_ h
  · exact fun h h' sha256 hBlob => h' sha256 (h sha256 hBlob)
  · intro u v hRely sha256
    exact Rely.blobs hRely
  · intro u v hGuar sha256
    exact (hGuar.others (p + 1) (Nat.succ_ne_self p)).blobs

theorem safe_load {next : Session → Code α}
    (h : ∀ w', Inv host w' → Rely p w w' → SafeCode host roomy p (next (w'.sessions p)) Q w') :
    SafeCode host roomy p (perform .load >>= next) Q w := by
  rintro w' hInv hRely oracle r _ ⟨⟩
  exact ⟨guar_private hInv rfl rfl rfl rfl (fun _ _ => rfl) (fun _ _ => rfl) fun _ _ => rfl,
    h w' hInv hRely⟩

variable {next : Unit → Code α}

theorem safe_store {session : Session}
    (h : ∀ w', Inv host w' → Rely p w w' → SafeCode host roomy p (next ()) Q
      { w' with sessions := Function.update w'.sessions p session }) :
    SafeCode host roomy p (perform (.store session) >>= next) Q w := by
  rintro w' hInv hRely oracle r _ ⟨⟩
  exact ⟨guar_private hInv rfl rfl rfl rfl (fun _ _ => rfl)
    (fun q hq => Function.update_of_ne hq _ _) fun _ _ => rfl, h w' hInv hRely⟩

theorem safe_exit (h : ∀ w', Inv host w' → Rely p w w' → SafeCode host roomy p (next ()) Q
      { w' with alive := Function.update w'.alive p false }) :
    SafeCode host roomy p (perform .exit >>= next) Q w := by
  rintro w' hInv hRely oracle r _ ⟨⟩
  exact ⟨guar_private hInv rfl rfl rfl rfl (fun q hq => Function.update_of_ne hq _ _)
    (fun _ _ => rfl) fun _ _ => rfl, h w' hInv hRely⟩

theorem safe_reply {exchange : Exchange}
    (h : ∀ w', Inv host w' → Rely p w w' → SafeCode host roomy p (next ()) Q
      { w' with synced := Function.update w'.synced p (w'.synced p ++ [exchange]) }) :
    SafeCode host roomy p (perform (.reply exchange) >>= next) Q w := by
  rintro w' hInv hRely oracle r _ ⟨⟩
  exact ⟨guar_private hInv rfl rfl rfl rfl (fun _ _ => rfl) (fun _ _ => rfl)
    fun q hq => Function.update_of_ne hq _ _, h w' hInv hRely⟩

theorem safe_lowDisk {bytes : Nat} {next : Option String → Code α}
    (h : ∀ w' low, Inv host w' → Rely p w w' → (roomy p = true → low = none) →
      SafeCode host roomy p (next low) Q w') :
    SafeCode host roomy p (perform (.lowDisk bytes) >>= next) Q w := by
  intro w' hInv hRely oracle r w'' hExec
  simp only [system, exec, Option.ite_none_left_eq_some, Bool.and_eq_true, not_and,
    Option.some.injEq, Prod.mk.injEq] at hExec
  obtain ⟨hRoom, rfl, rfl⟩ := hExec
  refine ⟨guar_private hInv rfl rfl rfl rfl (fun _ _ => rfl) (fun _ _ => rfl) fun _ _ => rfl,
    h w' _ hInv hRely ?_⟩
  intro hRoomy
  simpa using hRoom hRoomy

theorem safe_existsSync {sha256 : Digest} {next : Bool → Code α}
    (h : ∀ w', Inv host w' → Rely p w w' →
      SafeCode host roomy p (next (w'.blobs sha256).isSome) Q w') :
    SafeCode host roomy p (perform (.existsSync sha256) >>= next) Q w := by
  rintro w' hInv hRely oracle r _ ⟨⟩
  exact ⟨guar_private hInv rfl rfl rfl rfl (fun _ _ => rfl) (fun _ _ => rfl) fun _ _ => rfl,
    h w' hInv hRely⟩

theorem safe_randomUUID {next : Uuid → Code α}
    (h : ∀ w' tmp, Inv host w' → Rely p w w' → tmp ∉ w'.drawn.map Prod.fst →
      SafeCode host roomy p (next tmp) Q { w' with drawn := (tmp, p) :: w'.drawn }) :
    SafeCode host roomy p (perform .randomUUID >>= next) Q w := by
  intro w' hInv hRely oracle r w'' hExec
  simp only [system, exec, Option.ite_none_left_eq_some, Option.some.injEq, Prod.mk.injEq]
    at hExec
  obtain ⟨hNew, rfl, rfl⟩ := hExec
  exact ⟨guar_randomUUID hInv hNew, h w' _ hInv hRely hNew⟩

theorem safe_appendFileSync {data : Bytes} (hDrew : Drew p tmp w)
    (h : ∀ w', Inv host w' → Rely p w w' → SafeCode host roomy p (next ()) Q
      { w' with tmps := Function.update w'.tmps tmp (some ((w'.tmps tmp).getD [] ++ data)) }) :
    SafeCode host roomy p (perform (.appendFileSync tmp data) >>= next) Q w := by
  rintro w' hInv hRely oracle r _ ⟨⟩
  exact ⟨guar_tmp hInv (hRely.drawn hDrew), h w' hInv hRely⟩

theorem safe_rmSync (hDrew : Drew p tmp w)
    (h : ∀ w', Inv host w' → Rely p w w' → SafeCode host roomy p (next ()) Q
      { w' with tmps := Function.update w'.tmps tmp none }) :
    SafeCode host roomy p (perform (.rmSync tmp) >>= next) Q w := by
  rintro w' hInv hRely oracle r _ ⟨⟩
  exact ⟨guar_tmp hInv (hRely.drawn hDrew), h w' hInv hRely⟩

theorem safe_renameSync {content : Bytes} {sha256 : Digest} (hDrew : Drew p tmp w)
    (hTmp : w.tmps tmp = some content) (hSha : host.sha256 content = sha256)
    (h : ∀ w', Inv host w' → Rely p w w' → SafeCode host roomy p (next ()) Q
      { w' with
        tmps := Function.update w'.tmps tmp none
        blobs := Function.update w'.blobs sha256 (w'.tmps tmp) }) :
    SafeCode host roomy p (perform (.renameSync tmp sha256) >>= next) Q w := by
  subst hSha
  rintro w' hInv hRely oracle r _ ⟨⟩
  exact ⟨guar_renameSync hInv (hRely.drawn hDrew) ((hRely.tmps hDrew).trans hTmp),
    h w' hInv hRely⟩

theorem safe_launch {repo : String} {manifest : List BuildFile} {next : Option Refusal → Code α}
    (hCompleted : Completed repo (w.synced p))
    (hBlobs : ∀ file ∈ manifest, (w.blobs file.sha256).isSome)
    (h : ∀ w' refusal, Inv host w' → Rely p w w' → SafeCode host roomy p (next refusal) Q
      { w' with launches := w'.launches ++ [⟨p, repo, manifest, w'.synced p⟩] }) :
    SafeCode host roomy p (perform (.launch repo manifest) >>= next) Q w := by
  rintro w' hInv hRely oracle r _ ⟨⟩
  exact ⟨guar_launch hInv (hRely.synced ▸ hCompleted)
    fun file hFile => hRely.blobs (hBlobs file hFile), h w' _ hInv hRely⟩

end Rules

end Stim.Cli.BuildSession
