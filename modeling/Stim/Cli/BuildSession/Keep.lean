import Stim.Cli.BuildSession.Blobs

/-!
# What every request keeps

Whatever a connection sends, its session's partial upload holds what was hashed of it, and its
manifest is finished only when the last request that reached it finished it.
-/

namespace Stim.Cli.BuildSession

open Interleaving (Safe)

variable {host : Host} {roomy : JobPid → Bool} {p : JobPid} {w w' : World}

/-! ## Sound sessions -/

/-- The partial upload holds what the running hash was fed. -/
structure Held (p : JobPid) (incoming : Incoming) (w : World) : Prop where
  drew : Drew p incoming.tmp w
  tmp : (w.tmps incoming.tmp).getD [] = incoming.hash
  received : incoming.received = incoming.hash.length

variable {incoming : Incoming}

theorem Held.rely (h : Held p incoming w) (hRely : Rely p w w') : Held p incoming w' :=
  ⟨hRely.drawn h.drew, (congrArg (Option.getD · []) (hRely.tmps h.drew)).trans h.tmp, h.received⟩

/-- What an open connection's session has to be. -/
structure Sound (p : JobPid) (w : World) : Prop where
  incoming : ∀ incoming, (w.sessions p).incoming = some incoming → Held p incoming w
  synced : Synced (w.sessions p) (w.synced p)

theorem Sound.rely (h : Sound p w) (hRely : Rely p w w') : Sound p w' := by
  refine ⟨?_, ?_⟩
  · rw [hRely.session]
    exact fun incoming hIncoming => (h.incoming incoming hIncoming).rely hRely
  · rw [hRely.session, hRely.synced]
    exact h.synced

theorem sound_stable : (contract host).Stable p (Sound p) :=
  fun _ _ hRely h => h.rely hRely

/-- A connection that ended owes nothing. -/
def Resting (p : JobPid) (w : World) : Prop := w.alive p = true → Sound p w

theorem resting_stable : (contract host).Stable p (Resting p) := by
  intro w w' _ _ hRely h hAlive
  rw [hRely.alive] at hAlive
  exact (h hAlive).rely hRely

/-! ## `build.sync` -/

theorem openManifest_done (session : Session) (repo : String) :
    (session.openManifest repo).done = false := by
  unfold Session.openManifest
  split
  · rfl
  · rename_i h
    exact Bool.eq_false_iff.mpr fun hDone => h (.inl hDone)

theorem openManifest_repo (session : Session) (repo : String) :
    (session.openManifest repo).repo = some repo := by
  unfold Session.openManifest
  split
  · rfl
  · rename_i h
    exact not_not.mp fun hRepo => h (.inr hRepo)

@[simp] theorem openManifest_incoming (session : Session) (repo : String) :
    (session.openManifest repo).incoming = session.incoming := by
  unfold Session.openManifest
  split <;> rfl

@[simp] theorem openManifest_expected (session : Session) (repo : String) :
    (session.openManifest repo).expected = session.expected := by
  unfold Session.openManifest
  split <;> rfl

/-- What a program that only reads tells of its result. -/
theorem read_stable {A : Prop} : (contract host).Stable p fun v => A ∧ Rely p w v :=
  fun _ _ hRely h => ⟨h.1, Rely.trans h.2 hRely⟩

/-- What the loop over a page leaves alone. -/
structure Session.SameUpload (session session' : Session) : Prop where
  incoming : session'.incoming = session.incoming
  done : session'.done = session.done
  repo : session'.repo = session.repo

theorem Session.SameUpload.of_addFile {session session' : Session} {file : BuildFile}
    (h : (session.addFile file).SameUpload session') : session.SameUpload session' :=
  ⟨h.incoming, h.done, h.repo⟩

theorem safe_syncFiles (entries : List (Option BuildFile)) :
    ∀ (session : Session) (missing : List Digest) {w : World}, Inv host w →
      SafeCode host roomy p (syncFiles host entries session missing)
        (fun r v => session.SameUpload r.1 ∧ Rely p w v) w := by
  induction entries with
  | nil =>
      intro session missing w hInv
      exact Safe.ret hInv read_stable ⟨⟨rfl, rfl, rfl⟩, .refl p w⟩
  | cons entry rest ih =>
      intro session missing w hInv
      have hSame : session.SameUpload session ∧ Rely p w w :=
        ⟨⟨rfl, rfl, rfl⟩, .refl p w⟩
      unfold syncFiles
      split
      · exact Safe.ret hInv read_stable hSame
      · rename_i file _
        split_ifs
        · exact Safe.ret hInv read_stable hSame
        · exact (ih (session.addFile file) missing hInv).mono
            fun _ _ _ h => ⟨h.1.of_addFile, h.2⟩
        · refine safe_existsSync fun w' hInv' hRely => ?_
          split
          · exact (ih (session.addFile file) missing hInv').mono
              fun _ _ _ h => ⟨h.1.of_addFile, hRely.trans h.2⟩
          · exact (ih ((session.addFile file).expect file) _ hInv').mono
              fun _ _ _ h => ⟨⟨h.1.incoming, h.1.done, h.1.repo⟩, hRely.trans h.2⟩

/-- What a request that reached its manifest makes of the session. -/
structure Session.Reached (session : Session) (repo : String) (done : Bool)
    (r : Session × Except Refusal (List Digest)) : Prop where
  incoming : r.1.incoming = session.incoming
  repo : r.1.repo = some repo
  done : r.1.done = true → done = true ∧ ∃ missing, r.2 = .ok missing

variable {session : Session}

theorem safe_syncManifest {repo : String} {entries : List (Option BuildFile)} {done : Bool}
    (hInv : Inv host w) :
    SafeCode host roomy p (syncManifest host repo entries done session)
      (fun r v => session.Reached repo done r ∧ Rely p w v) w := by
  have hDone := openManifest_done session repo
  have hRepo := openManifest_repo session repo
  have hRefused : ∀ {session' : Session} {refusal : Refusal},
      (session.openManifest repo).SameUpload session' →
        session.Reached repo done (session', .error refusal) := by
    intro session' refusal hSame
    refine ⟨hSame.incoming.trans (openManifest_incoming _ _), hSame.repo.trans hRepo, ?_⟩
    intro h
    rw [hSame.done, hDone] at h
    cases h
  dsimp only [syncManifest]
  split
  · exact Safe.ret hInv read_stable
      ⟨hRefused ⟨rfl, rfl, rfl⟩, .refl p w⟩
  · refine Safe.bind (safe_syncFiles entries _ _ hInv) ?_
    rintro ⟨session', answer⟩ v hInv' ⟨hSame, hRely⟩
    cases answer with
    | error refusal => exact Safe.ret hInv' read_stable ⟨hRefused hSame, hRely⟩
    | ok missing =>
        exact Safe.ret hInv' read_stable
          ⟨⟨hSame.incoming.trans (openManifest_incoming _ _), hSame.repo.trans hRepo,
            fun h => ⟨h, missing, rfl⟩⟩, hRely⟩

/-- The session after an answer that the transcript does not list yet. -/
structure Answered (p : JobPid) (params : SyncParams) (answer : Except Refusal (List Digest))
    (w : World) : Prop where
  incoming : ∀ incoming, (w.sessions p).incoming = some incoming → Held p incoming w
  synced : Synced (w.sessions p) (w.synced p ++ [⟨params, answer⟩])

variable {params : SyncParams}

theorem answered_stable {answer : Except Refusal (List Digest)} :
    (contract host).Stable p (Answered p params answer) := by
  rintro w w' - - hRely ⟨hIncoming, hSynced⟩
  refine ⟨?_, ?_⟩
  · rw [hRely.session]
    exact fun incoming h => (hIncoming incoming h).rely hRely
  · rwa [hRely.session, hRely.synced]

theorem Sound.declined {refusal : Refusal} (h : Sound p w)
    (hWhy : refusal.code = .buildBusy ∨ validRepo params.repo = false ∨ params.files = none ∨
      params.done = none) : Answered p params (.error refusal) w := by
  refine ⟨h.incoming, h.synced.append_declined ?_⟩
  rcases hWhy with hWhy | hWhy | hWhy | hWhy
  all_goals simp [Exchange.declined, hWhy]

theorem safe_sync (hInv : Inv host w) (h : Sound p w) :
    SafeCode host roomy p (sync host params) (Answered p params) w := by
  unfold sync
  split
  · rename_i files done hRepo hFiles hDone
    refine safe_lowDisk fun w₁ low hInv₁ hRely₁ _ => ?_
    have h₁ := h.rely hRely₁
    cases low with
    | some low => exact Safe.ret hInv₁ answered_stable (h₁.declined (.inl rfl))
    | none =>
        refine safe_load fun w₂ hInv₂ hRely₂ => ?_
        have h₂ := h₁.rely hRely₂
        refine Safe.bind (safe_syncManifest hInv₂) ?_
        rintro ⟨session, answer⟩ w₃ hInv₃ ⟨hReached, hRely₃⟩
        refine safe_store fun w₄ hInv₄ hRely₄ => ?_
        have hRely : Rely p w₂ w₄ := Rely.trans hRely₃ hRely₄
        refine Safe.ret (hInv₄.frame rfl rfl rfl rfl) answered_stable ⟨?_, ?_⟩
        · simp only [Function.update_self]
          intro incoming hIncoming
          have hHeld := (h₂.incoming incoming (hReached.incoming ▸ hIncoming)).rely hRely
          exact ⟨hHeld.drew, hHeld.tmp, hHeld.received⟩
        · simp only [Function.update_self]
          refine synced_append hReached.repo fun hFinished => ?_
          obtain ⟨hLast, missing, rfl⟩ := hReached.done hFinished
          simp [Exchange.completes, hDone, hLast]
  · rename_i hDone
    exact Safe.ret hInv answered_stable (h.declined (.inr (.inr (.inr hDone))))
  · rename_i hNot _
    refine Safe.ret hInv answered_stable (h.declined (.inr ?_))
    cases hRepo : validRepo params.repo with
    | false => exact .inl rfl
    | true =>
        cases hFiles : params.files with
        | none => exact .inr (.inl rfl)
        | some files =>
            cases hDone : params.done with
            | none => exact .inr (.inr rfl)
            | some done => exact absurd hDone (hNot files done hRepo hFiles)

theorem safe_handleSync (hInv : Inv host w) (h : Sound p w) :
    SafeCode host roomy p (handleSync host params) (fun _ => Sound p) w := by
  refine Safe.bind (safe_sync hInv h) fun answer v hInv₁ hAnswered => ?_
  refine safe_reply fun v₁ hInv₂ hRely => ?_
  have h₁ := answered_stable hInv₁ hInv₂ hRely hAnswered
  refine Safe.ret (hInv₂.frame rfl rfl rfl rfl) sound_stable ⟨?_, ?_⟩
  · intro incoming hIncoming
    have hHeld := h₁.incoming incoming hIncoming
    exact ⟨hHeld.drew, hHeld.tmp, hHeld.received⟩
  · simp only [Function.update_self]
    exact h₁.synced

/-! ## Blob frames -/

def Incoming.feed (incoming : Incoming) (data : Bytes) : Incoming :=
  { incoming with received := incoming.received + data.length, hash := incoming.hash ++ data }

/-- What a frame's data makes of the session it is for. -/
inductive Received (host : Host) (p : JobPid) (session : Session) (incoming : Incoming)
    (data : Bytes) (w : World) : Option String → Prop
  | more (hSize : incoming.received + data.length < incoming.size)
      (hSession : w.sessions p = { session with incoming := some (incoming.feed data) })
      (hHeld : Held p (incoming.feed data) w) : Received host p session incoming data w none
  | whole (hSize : incoming.received + data.length = incoming.size)
      (hSha : host.sha256 (incoming.hash ++ data) = incoming.sha256)
      (hSession : w.sessions p = { session with
        incoming := none, expected := session.expected.delete incoming.sha256 })
      (hBlob : (w.blobs incoming.sha256).isSome) : Received host p session incoming data w none
  | refused (why : String)
      (hBad : incoming.received + data.length = incoming.size →
        host.sha256 (incoming.hash ++ data) ≠ incoming.sha256)
      (hSize : incoming.size ≤ incoming.received + data.length)
      (hDrew : ∀ incoming, (w.sessions p).incoming = some incoming → Drew p incoming.tmp w) :
      Received host p session incoming data w (some why)

/-- The answer to a frame's data, its transcript as it was. -/
def ReceivedIn (host : Host) (p : JobPid) (session : Session) (incoming : Incoming)
    (data : Bytes) (synced : List Exchange) (answer : Option String) (w : World) : Prop :=
  Received host p session incoming data w answer ∧ w.synced p = synced

variable {synced : List Exchange} {answer : Option String}

variable {data : Bytes}

theorem receivedIn_stable :
    (contract host).Stable p (ReceivedIn host p session incoming data synced answer) := by
  rintro w w' - - hRely ⟨h, hSynced⟩
  refine ⟨?_, hRely.synced.trans hSynced⟩
  cases h with
  | more hSize hSession hHeld =>
      exact .more hSize (hRely.session.trans hSession) (hHeld.rely hRely)
  | whole hSize hSha hSession hBlob =>
      exact .whole hSize hSha (hRely.session.trans hSession) (hRely.blobs hBlob)
  | refused why hBad hSize hDrew =>
      refine .refused why hBad hSize ?_
      rw [hRely.session]
      exact fun incoming hIncoming => hRely.drawn (hDrew incoming hIncoming)

theorem safe_receive (hHeld : Held p incoming w) :
    SafeCode host roomy p (receive host session incoming data)
      (ReceivedIn host p session incoming data (w.synced p)) w := by
  dsimp only [receive]
  split
  · rename_i hSize
    refine safe_store fun v hInv₁ hRely => ?_
    refine Safe.ret (hInv₁.frame rfl rfl rfl rfl) receivedIn_stable ⟨?_, hRely.synced⟩
    refine .refused _ (fun hEq => absurd hEq (by omega)) (by omega) ?_
    intro other hOther
    simp only [Function.update_self, Option.some.injEq] at hOther
    exact hOther ▸ hRely.drawn hHeld.drew
  · rename_i hSize
    refine safe_appendFileSync hHeld.drew fun v hInv₁ hRely₁ => ?_
    have hHeld₁ := hHeld.rely hRely₁
    have hTmp : ((v.tmps incoming.tmp).getD [] ++ data) = incoming.hash ++ data := by
      rw [hHeld₁.tmp]
    have hInv₂ := (guar_tmp hInv₁ hHeld₁.drew : (contract host).Guar p v { v with
      tmps := Function.update v.tmps incoming.tmp
        (some ((v.tmps incoming.tmp).getD [] ++ data)) }).inv
    have hFed : Held p (incoming.feed data) { v with
        tmps := Function.update v.tmps incoming.tmp
          (some ((v.tmps incoming.tmp).getD [] ++ data)) } := by
      refine ⟨hHeld₁.drew, ?_, ?_⟩
      · simp only [Incoming.feed, Function.update_self, Option.getD_some, hTmp]
      · simp only [Incoming.feed, hHeld.received, List.length_append]
    split
    · rename_i hMore
      refine safe_store fun v₁ hInv₃ hRely₂ => ?_
      refine Safe.ret (hInv₃.frame rfl rfl rfl rfl) receivedIn_stable
        ⟨.more hMore (Function.update_self ..) ?_, hRely₂.synced.trans hRely₁.synced⟩
      have h := hFed.rely hRely₂
      exact ⟨h.drew, h.tmp, h.received⟩
    · rename_i hWhole
      refine safe_store fun v₁ hInv₃ hRely₂ => ?_
      have hDrew := hRely₂.drawn hFed.drew
      have hContent : v₁.tmps incoming.tmp = some (incoming.hash ++ data) := by
        refine (hRely₂.tmps hFed.drew).trans ?_
        rw [← hTmp]
        exact Function.update_self ..
      have hAll : incoming.received + data.length = incoming.size := by omega
      split
      · rename_i hSha
        refine safe_rmSync hDrew fun v₂ hInv₄ hRely₃ => ?_
        refine Safe.ret (guar_tmp hInv₄ (hRely₃.drawn hDrew) :
          (contract host).Guar p v₂ _).inv receivedIn_stable
          ⟨.refused _ (fun _ => hSha) (Nat.le_of_eq hAll.symm) ?_, ?_⟩
        · intro other hOther
          rw [hRely₃.session] at hOther
          simp only [Function.update_self] at hOther
          cases hOther
        · exact hRely₃.synced.trans (hRely₂.synced.trans hRely₁.synced)
      · rename_i hSha
        have hSha := not_not.mp hSha
        refine safe_renameSync hDrew hContent hSha fun v₂ hInv₄ hRely₃ => ?_
        have hContent₂ : v₂.tmps incoming.tmp = some (incoming.hash ++ data) :=
          (hRely₃.tmps hDrew).trans hContent
        refine Safe.ret (hSha ▸ guar_renameSync hInv₄ (hRely₃.drawn hDrew) hContent₂ :
          (contract host).Guar p v₂ _).inv receivedIn_stable ⟨.whole hAll hSha ?_ ?_, ?_⟩
        · refine hRely₃.session.trans ?_
          exact Function.update_self ..
        · simp only [Function.update_self]
          rw [hContent₂]
          rfl
        · exact hRely₃.synced.trans (hRely₂.synced.trans hRely₁.synced)

/-- The digest a frame starts with. -/
def frameSha (frame : Bytes) : Digest := String.ofList (Hex.encode (frame.take digestBytes))

/-- The upload a frame of `sha256` goes to. -/
inductive Session.Takes (session : Session) (sha256 : Digest) : Incoming → Prop
  | next {incoming : Incoming} (hIncoming : session.incoming = some incoming)
      (hSha : incoming.sha256 = sha256) : session.Takes sha256 incoming
  | first {size : Nat} (tmp : Uuid) (hIncoming : session.incoming = none)
      (hSize : session.expected.get sha256 = some size) :
      session.Takes sha256 ⟨sha256, size, 0, [], tmp⟩

/-- A frame the session has a use for. -/
structure Wanted (roomy : JobPid → Bool) (p : JobPid) (session : Session) (frame : Bytes) :
    Prop where
  length : digestBytes ≤ frame.length
  next : ∀ incoming, session.incoming = some incoming → incoming.sha256 = frameSha frame
  first : session.incoming = none →
    roomy p = true ∧ (session.expected.get (frameSha frame)).isSome

/-- How a session answers a frame. -/
inductive Blobbed (host : Host) (roomy : JobPid → Bool) (p : JobPid) (session : Session)
    (synced : List Exchange) (frame : Bytes) (w : World) : Option String → Prop
  | fed {incoming : Incoming} {answer : Option String}
      (hTakes : session.Takes (frameSha frame) incoming)
      (h : ReceivedIn host p session incoming (frame.drop digestBytes) synced answer w) :
      Blobbed host roomy p session synced frame w answer
  | unwanted (why : String) (hNot : ¬ Wanted roomy p session frame)
      (hSession : w.sessions p = session)
      (hIncoming : ∀ incoming, session.incoming = some incoming → Held p incoming w) :
      Blobbed host roomy p session synced frame w (some why)

variable {frame : Bytes}

theorem blobbed_stable : (contract host).Stable p
      (Blobbed host roomy p session synced frame · answer) := by
  intro w w' hInv hInv' hRely h
  cases h with
  | fed hTakes h => exact .fed hTakes (receivedIn_stable hInv hInv' hRely h)
  | unwanted why hNot hSession hIncoming =>
      exact .unwanted why hNot (hRely.session.trans hSession)
        fun incoming h => (hIncoming incoming h).rely hRely

theorem safe_blob (hInv : Inv host w) (h : Sound p w) :
    SafeCode host roomy p (blob host frame)
      (fun answer v => Blobbed host roomy p (w.sessions p) (w.synced p) frame v answer) w := by
  dsimp only [blob]
  split
  · rename_i hShort
    exact Safe.ret hInv blobbed_stable
      (.unwanted _ (fun hWanted => absurd hWanted.length (by omega)) rfl h.incoming)
  · refine safe_load fun w₁ hInv₁ hRely₁ => ?_
    have h₁ := h.rely hRely₁
    rw [← hRely₁.session, ← hRely₁.synced]
    split
    · rename_i incoming hIncoming
      split
      · rename_i hOther
        exact Safe.ret hInv₁ blobbed_stable
          (.unwanted _ (fun hWanted => hOther (hWanted.next incoming hIncoming)) rfl h₁.incoming)
      · rename_i hSame
        exact (safe_receive (h₁.incoming incoming hIncoming)).mono
          fun _ _ _ hReceived => .fed (.next hIncoming (not_not.mp hSame)) hReceived
    · rename_i hNone
      split
      · rename_i hUnasked
        refine Safe.ret hInv₁ blobbed_stable (.unwanted _ ?_ rfl h₁.incoming)
        intro hWanted
        have hAsked := (hWanted.first hNone).2
        rw [frameSha, hUnasked] at hAsked
        cases hAsked
      · rename_i size hSize
        refine safe_lowDisk fun w₂ low hInv₂ hRely₂ hRoomy => ?_
        have h₂ := h₁.rely hRely₂
        rw [← hRely₂.session, ← hRely₂.synced]
        rw [← hRely₂.session] at hNone hSize
        cases low with
        | some low =>
            refine Safe.ret hInv₂ blobbed_stable (.unwanted _ ?_ rfl h₂.incoming)
            intro hWanted
            cases hRoomy (hWanted.first hNone).1
        | none =>
            refine safe_randomUUID fun w₃ tmp hInv₃ hRely₃ hNew => ?_
            -- nothing was written under a UUID that was never drawn
            have hTmp : w₃.tmps tmp = none := by
              rw [← Option.not_isSome_iff_eq_none]
              exact fun hSome => hNew (hInv₃.tmps tmp hSome)
            have hHeld : Held p ⟨frameSha frame, size, 0, [], tmp⟩
                { w₃ with drawn := (tmp, p) :: w₃.drawn } :=
              ⟨List.mem_cons_self .., by simp [hTmp], rfl⟩
            rw [← hRely₃.session, ← hRely₃.synced]
            rw [← hRely₃.session] at hNone hSize
            exact (safe_receive hHeld).mono
              fun _ _ _ hReceived => .fed (.first tmp hNone hSize) hReceived

theorem ReceivedIn.sound (h : ReceivedIn host p session incoming data synced none w)
    (hSynced : Synced session synced) : Sound p w := by
  obtain ⟨h, hTranscript⟩ := h
  cases h with
  | more hSize hSession hHeld =>
      refine ⟨?_, ?_⟩
      · rw [hSession]
        intro other hOther
        cases hOther
        exact hHeld
      · rw [hSession, hTranscript]
        exact hSynced
  | whole hSize hSha hSession hBlob =>
      refine ⟨?_, ?_⟩
      · rw [hSession]
        intro other hOther
        cases hOther
      · rw [hSession, hTranscript]
        exact hSynced

/-- What `close` needs. -/
def Removable (p : JobPid) (w : World) : Prop :=
  ∀ incoming, (w.sessions p).incoming = some incoming → Drew p incoming.tmp w

theorem Blobbed.removable {why : String}
    (h : Blobbed host roomy p session synced frame w (some why)) : Removable p w := by
  cases h with
  | fed _ h =>
      cases h.1 with
      | refused _ _ _ hDrew => exact hDrew
  | unwanted _ _ hSession hIncoming =>
      intro incoming h
      exact (hIncoming incoming (hSession ▸ h)).drew

theorem safe_close (h : Removable p w) :
    SafeCode host roomy p close (fun _ v => v.alive p = false) w := by
  have hStable : (contract host).Stable p fun v => v.alive p = false :=
    fun _ _ hRely hEnded => hRely.alive.trans hEnded
  have hExit : ∀ {v : World}, SafeCode host roomy p (perform .exit)
      (fun _ v => v.alive p = false) v := by
    intro v
    refine safe_exit fun v' hInv' _ => ?_
    exact Safe.ret (hInv'.frame rfl rfl rfl rfl) hStable (Function.update_self ..)
  refine safe_load fun v hInv₁ hRely₁ => ?_
  split
  · exact hExit
  · rename_i incoming hIncoming
    rw [hRely₁.session] at hIncoming
    exact safe_rmSync (hRely₁.drawn (h incoming hIncoming)) fun _ _ _ => hExit

/-- A frame that continues its blob, and ends it only with the right content. -/
structure Fits (host : Host) (roomy : JobPid → Bool) (p : JobPid) (session : Session)
    (frame : Bytes) : Prop where
  wanted : Wanted roomy p session frame
  size : ∀ incoming, session.Takes (frameSha frame) incoming →
    incoming.received + (frame.drop digestBytes).length ≤ incoming.size
  content : ∀ incoming, session.Takes (frameSha frame) incoming →
    incoming.received + (frame.drop digestBytes).length = incoming.size →
      host.sha256 (incoming.hash ++ frame.drop digestBytes) = incoming.sha256

theorem Blobbed.not_fits {why : String}
    (h : Blobbed host roomy p session synced frame w (some why)) :
    ¬ Fits host roomy p session frame := by
  intro hFits
  cases h with
  | fed hTakes h =>
      cases h.1 with
      | refused _ hBad hSize _ =>
          have hAll := Nat.le_antisymm (hFits.size _ hTakes) hSize
          exact hBad hAll (hFits.content _ hTakes hAll)
  | unwanted _ hNot _ _ => exact hNot hFits.wanted

/-- A frame is taken with the session sound, or it ends the connection and did not fit. -/
inductive Handled (host : Host) (roomy : JobPid → Bool) (p : JobPid) (session : Session)
    (synced : List Exchange) (frame : Bytes) (w : World) : Option String → Prop
  | taken {incoming : Incoming} (hTakes : session.Takes (frameSha frame) incoming)
      (h : ReceivedIn host p session incoming (frame.drop digestBytes) synced none w) :
      Handled host roomy p session synced frame w none
  | ended (why : String) (hAlive : w.alive p = false)
      (hNot : ¬ Fits host roomy p session frame) :
      Handled host roomy p session synced frame w (some why)

theorem handled_stable : (contract host).Stable p
      (Handled host roomy p session synced frame · answer) := by
  intro w w' hInv hInv' hRely h
  cases h with
  | taken hTakes h => exact .taken hTakes (receivedIn_stable hInv hInv' hRely h)
  | ended why hAlive hNot => exact .ended why (hRely.alive.trans hAlive) hNot

theorem safe_handleBinary (hInv : Inv host w) (h : Sound p w) :
    SafeCode host roomy p (handleBinary host frame)
      (fun answer v => Handled host roomy p (w.sessions p) (w.synced p) frame v answer) w := by
  refine Safe.bind (safe_blob hInv h) fun answer v hInv₁ hBlobbed => ?_
  cases answer with
  | none =>
      cases hBlobbed with
      | fed hTakes hReceived => exact Safe.ret hInv₁ handled_stable (.taken hTakes hReceived)
  | some why =>
      refine Safe.bind (safe_close hBlobbed.removable) fun _ v₁ hInv₂ hEnded => ?_
      exact Safe.ret hInv₂ handled_stable (.ended why hEnded hBlobbed.not_fits)

theorem Handled.resting (h : Handled host roomy p session synced frame w answer)
    (hSynced : Synced session synced) : Resting p w := by
  intro hAlive
  cases h with
  | taken _ h => exact h.sound hSynced
  | ended _ hEnded _ =>
      rw [hEnded] at hAlive
      cases hAlive

/-! ## `build.start` -/

/-- What the `existsSync` loop found. -/
structure Looked (p : JobPid) (files : List BuildFile) (w v : World) (absent : Option BuildFile) :
    Prop where
  rely : Rely p w v
  none : absent = none → ∀ file ∈ files, (v.blobs file.sha256).isSome
  some : ∀ file, absent = some file → file ∈ files ∧ ¬ (w.blobs file.sha256).isSome

theorem looked_stable {files : List BuildFile} {absent : Option BuildFile} :
    (contract host).Stable p (Looked p files w · absent) :=
  fun _ _ hRely h => ⟨h.rely.trans hRely,
    fun hNone file hFile => hRely.blobs (h.none hNone file hFile), h.some⟩

theorem safe_absentBlob (files : List BuildFile) :
    ∀ {w : World}, Inv host w →
      SafeCode host roomy p (absentBlob files) (fun r v => Looked p files w v r) w := by
  induction files with
  | nil =>
      intro w hInv
      refine Safe.ret hInv looked_stable ⟨.refl p w, ?_, ?_⟩
      · simp
      · simp
  | cons file rest ih =>
      intro w hInv
      refine safe_existsSync fun w₁ hInv₁ hRely => ?_
      split
      · rename_i hThere
        refine (ih hInv₁).mono fun absent v _ h => ⟨hRely.trans h.rely, ?_, ?_⟩
        · intro hNone other hOther
          rcases List.mem_cons.mp hOther with rfl | hRest
          · exact h.rely.blobs hThere
          · exact h.none hNone other hRest
        · intro other hOther
          obtain ⟨hMem, hAbsent⟩ := h.some other hOther
          exact ⟨List.mem_cons_of_mem _ hMem, fun hSome => hAbsent (hRely.blobs hSome)⟩
      · rename_i hThere
        refine Safe.ret hInv₁ looked_stable ⟨hRely, by simp, ?_⟩
        rintro other ⟨⟩
        exact ⟨List.mem_cons_self .., fun hSome => hThere (hRely.blobs hSome)⟩

/-- How a session answers `build.start`: what it would launch, it launches. -/
structure Begun (p : JobPid) (params : StartParams) (w v : World) (result : Started) : Prop where
  sound : Sound p v
  launched : startRefusal (w.sessions p) params = none → params.compat = true →
    (∀ file ∈ (w.sessions p).files.values, (w.blobs file.sha256).isSome) →
      ∃ refusal, result = .launched (w.sessions p).files.values refusal

theorem begun_stable {params : StartParams} {result : Started} :
    (contract host).Stable p (Begun p params w · result) :=
  fun _ _ hRely h => ⟨h.sound.rely hRely, h.launched⟩

/-- The session of a start that got past the checks on it. -/
theorem startRefusal_eq_none {params : StartParams} (h : startRefusal session params = none) :
    session.done = true ∧ session.repo = some params.repo := by
  unfold startRefusal at h
  split_ifs at h with hRepo hShape hKind hOptions hProject hDone
  · rw [h] at hShape
    cases hShape
  · rw [h] at hOptions
    cases hOptions
  · simpa using hDone

theorem safe_start {params : StartParams} (h : Sound p w) :
    SafeCode host roomy p (start params) (fun r v => Begun p params w v r) w := by
  refine safe_load fun w₁ hInv₁ hRely₁ => ?_
  have h₁ := h.rely hRely₁
  rw [hRely₁.session]
  split
  · rename_i refusal hRefusal
    refine Safe.ret hInv₁ begun_stable ⟨h₁, ?_⟩
    intro hNone
    rw [hNone] at hRefusal
    cases hRefusal
  · rename_i hPast
    obtain ⟨hDone, hRepo⟩ := startRefusal_eq_none hPast
    refine Safe.bind (safe_absentBlob _ hInv₁) fun absent w₂ hInv₂ hLooked => ?_
    have h₂ := h₁.rely hLooked.rely
    cases absent with
    | some file =>
        obtain ⟨hFile, hAbsent⟩ := hLooked.some file rfl
        refine Safe.ret hInv₂ begun_stable ⟨h₂, ?_⟩
        exact fun _ _ hAll => absurd (hRely₁.blobs (hAll file hFile)) hAbsent
    | none =>
        have hSession : w₂.sessions p = w.sessions p :=
          hLooked.rely.session.trans hRely₁.session
        show SafeCode host roomy p (ite _ _ _) _ _
        split
        · rename_i hCompat
          refine Safe.ret hInv₂ begun_stable ⟨h₂, ?_⟩
          intro _ hTrue
          simp [hTrue] at hCompat
        · have hCompleted : Completed params.repo (w₂.synced p) :=
            h₂.synced.completed (hSession ▸ hDone) (hSession ▸ hRepo)
          refine safe_launch hCompleted (hLooked.none rfl) fun w₃ refusal hInv₃ hRely₃ => ?_
          have h₃ := h₂.rely hRely₃
          have hInv₄ := (guar_launch hInv₃ (hRely₃.synced ▸ hCompleted)
            fun file hFile => hRely₃.blobs (hLooked.none rfl file hFile) :
              (contract host).Guar p w₃ _).inv
          refine Safe.ret hInv₄ begun_stable ⟨⟨?_, h₃.synced⟩, fun _ _ _ => ⟨refusal, rfl⟩⟩
          intro incoming hIncoming
          have hHeld := h₃.incoming incoming hIncoming
          exact ⟨hHeld.drew, hHeld.tmp, hHeld.received⟩

end Stim.Cli.BuildSession
