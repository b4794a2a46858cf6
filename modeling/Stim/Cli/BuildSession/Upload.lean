import Stim.Cli.BuildSession.Keep

/-!
# An upload arrives whole

`syncSource` against a session with nothing unfinished: after each page the session's manifest is
the pages so far and every blob of it is present or asked for, and each blob's frames take one
digest off what is asked for.
-/

namespace Stim.Cli.BuildSession

open Interleaving (Safe)

variable {host : Host} {roomy : JobPid → Bool} {p : JobPid} {w w' : World}
  {source : Source host}

/-! ## Pages -/

/-- The session once the entries `sent` have come and the blobs `asked` are still owed. -/
structure Sending (source : Source host) (sent : List BuildFile) (asked : List Digest)
    (session : Session) (w : World) : Prop where
  repo : session.repo = some source.repo
  incoming : session.incoming = none
  files : session.files.entries = sent.map fun file => (file.path, file)
  bytes : session.bytes = (sent.map BuildFile.size).sum
  owed : ∀ sha256 ∈ asked, ∃ file ∈ sent, file.sha256 = sha256 ∧
    session.expected.get sha256 = some file.size
  nodup : asked.Nodup
  expected : ∀ file ∈ source.files, (session.expected.get file.sha256).isSome →
    file.sha256 ∈ asked
  present : ∀ file ∈ sent, file.sha256 ∉ asked → (w.blobs file.sha256).isSome

theorem Sending.mono {sent : List BuildFile} {asked : List Digest} {session : Session}
    (h : Sending source sent asked session w)
    (hBlobs : ∀ {sha256}, (w.blobs sha256).isSome → (w'.blobs sha256).isSome) :
    Sending source sent asked session w' :=
  { h with present := fun file hFile hOwed => hBlobs (h.present file hFile hOwed) }

section Page

variable {sent rest : List BuildFile} {asked : List Digest} {session : Session}
  {file : BuildFile}

theorem Sending.addFile_files (h : Sending source sent asked session w)
    (hSource : source.files = sent ++ file :: rest) :
    (session.addFile file).files.entries = (sent ++ [file]).map fun file => (file.path, file) := by
  have hNew : file.path ∉ session.files.keys := by
    have hNodup := source.paths_nodup
    rw [hSource, List.map_append, List.map_cons] at hNodup
    rw [OrderedMap.keys, h.files, List.map_map]
    intro hOld
    exact (List.nodup_append.mp hNodup).2.2 _ hOld file.path (List.mem_cons_self ..) rfl
  simp only [Session.addFile, OrderedMap.entries_set_of_notMem hNew, h.files, List.map_append,
    List.map_cons, List.map_nil]

theorem Sending.addFile_bytes (h : Sending source sent asked session w) :
    (session.addFile file).bytes = ((sent ++ [file]).map BuildFile.size).sum := by
  simp only [Session.addFile, h.bytes, List.map_append, List.map_cons, List.map_nil,
    List.sum_append, List.sum_cons, List.sum_nil, Nat.add_zero]

/-- One more entry, whose blob is not asked for again. -/
theorem Sending.addFile (h : Sending source sent asked session w)
    (hSource : source.files = sent ++ file :: rest)
    (hBlob : file.sha256 ∉ asked → (w.blobs file.sha256).isSome) :
    Sending source (sent ++ [file]) asked (session.addFile file) w := by
  refine ⟨h.repo, h.incoming, h.addFile_files hSource, h.addFile_bytes, ?_, h.nodup, h.expected,
    ?_⟩
  · intro sha256 hAsked
    obtain ⟨other, hOther, hSize⟩ := h.owed sha256 hAsked
    exact ⟨other, List.mem_append_left _ hOther, hSize⟩
  · intro other hOther hNot
    rcases List.mem_append.mp hOther with hOld | hLast
    · exact h.present other hOld hNot
    · rw [List.mem_singleton.mp hLast] at hNot ⊢
      exact hBlob hNot

/-- One more entry, whose blob is asked for. -/
theorem Sending.expect (h : Sending source sent asked session w)
    (hSource : source.files = sent ++ file :: rest)
    (hNew : session.expected.get file.sha256 = none) :
    Sending source (sent ++ [file]) (asked ++ [file.sha256])
      ((session.addFile file).expect file) w := by
  have hFresh : file.sha256 ∉ asked := by
    intro hAsked
    obtain ⟨other, -, -, hSize⟩ := h.owed _ hAsked
    rw [hNew] at hSize
    cases hSize
  refine ⟨h.repo, h.incoming, h.addFile_files hSource, h.addFile_bytes, ?_, ?_, ?_, ?_⟩
  · intro sha256 hAsked
    rcases List.mem_append.mp hAsked with hOld | hLast
    · obtain ⟨other, hOther, hSha, hSize⟩ := h.owed sha256 hOld
      refine ⟨other, List.mem_append_left _ hOther, hSha, ?_⟩
      have hOther : sha256 ≠ file.sha256 := fun hEq => hFresh (hEq ▸ hOld)
      exact (OrderedMap.get_set_of_ne hOther).trans hSize
    · rw [List.mem_singleton.mp hLast]
      exact ⟨file, List.mem_append_right _ (List.mem_singleton_self _), rfl,
        OrderedMap.get_set_self⟩
  · refine List.nodup_append.mpr ⟨h.nodup, List.nodup_singleton _, ?_⟩
    rintro a hOld b hLast rfl
    exact hFresh (List.mem_singleton.mp hLast ▸ hOld)
  · intro other hOther hSome
    by_cases hSha : other.sha256 = file.sha256
    · exact List.mem_append_right _ (hSha ▸ List.mem_singleton_self _)
    · have hOld : session.expected.get other.sha256 =
          ((session.addFile file).expect file).expected.get other.sha256 :=
        (OrderedMap.get_set_of_ne hSha).symm
      exact List.mem_append_left _ (h.expected other hOther (hOld ▸ hSome))
  · intro other hOther hNot
    rw [List.mem_append, not_or] at hNot
    rcases List.mem_append.mp hOther with hOld | hLast
    · exact h.present other hOld hNot.1
    · rw [List.mem_singleton.mp hLast] at hNot
      exact absurd (List.mem_singleton_self _) hNot.2

theorem Sending.bytes_le (h : Sending source sent asked session w)
    (hSource : source.files = sent ++ file :: rest) :
    session.bytes + file.size ≤ host.maxManifestBytes := by
  have hAll := source.bytes_le
  rw [hSource] at hAll
  rw [h.bytes]
  simp only [List.map_append, List.map_cons, List.sum_append, List.sum_cons] at hAll
  omega

end Page

/-- What a page's loop leaves, its answer not yet sent. -/
structure Paged (p : JobPid) (source : Source host) (sent : List BuildFile) (asked : List Digest)
    (done : Bool) (w v : World) (r : Session × Except Refusal (List Digest)) : Prop where
  answer : ∃ missing, r.2 = .ok missing ∧ Sending source sent (asked ++ missing) r.1 v
  done : r.1.done = done
  rely : Rely p w v

variable {done : Bool}

theorem paged_stable {sent : List BuildFile} {asked : List Digest}
    {r : Session × Except Refusal (List Digest)} :
    (contract host).Stable p (Paged p source sent asked done w · r) := by
  intro v v' _ _ hRely h
  obtain ⟨missing, hAnswer, hSending⟩ := h.answer
  exact ⟨⟨missing, hAnswer, hSending.mono hRely.blobs⟩, h.done, h.rely.trans hRely⟩

/-- Every entry of a page is accepted. -/
theorem safe_syncFiles_page (asked : List Digest) (page : List BuildFile) :
    ∀ {sent rest : List BuildFile} {session : Session} {missing : List Digest} {w : World},
      source.files = sent ++ (page ++ rest) → Inv host w →
        Sending source sent (asked ++ missing) session w →
          SafeCode host roomy p (syncFiles host (page.map some) session missing)
            (fun r v => Paged p source (sent ++ page) asked session.done w v r) w := by
  induction page with
  | nil =>
      intro sent rest session missing w _ hInv h
      rw [List.append_nil]
      exact Safe.ret hInv paged_stable ⟨⟨missing, rfl, h⟩, rfl, .refl p w⟩
  | cons file page ih =>
      intro sent rest session missing w hSource hInv h
      have hHere : source.files = sent ++ file :: (page ++ rest) := by
        simpa using hSource
      have hNext : source.files = (sent ++ [file]) ++ (page ++ rest) := by
        simpa using hSource
      have hValid : (some file).filter (validFile host) = some file := by
        have hMem : file ∈ source.files := by
          rw [hHere]
          simp
        rw [Option.filter_some, source.files_valid file hMem, if_pos rfl]
      rw [List.append_cons sent file page, List.map_cons, syncFiles, hValid]
      show SafeCode host roomy p (ite _ _ _) _ _
      rw [if_neg (Nat.not_lt.mpr (h.bytes_le hHere))]
      have hMem : file ∈ source.files := hHere ▸ by simp
      split
      · rename_i hKnown
        have hAsked := h.expected file hMem hKnown
        exact (ih hNext hInv (h.addFile hHere fun hNot => absurd hAsked hNot)).mono
          fun _ _ _ hPaged => ⟨hPaged.answer, hPaged.done, hPaged.rely⟩
      · rename_i hUnknown
        refine safe_existsSync fun v hInv₁ hRely => ?_
        have h₁ := h.mono hRely.blobs
        split
        · rename_i hThere
          exact (ih hNext hInv₁ (h₁.addFile hHere fun _ => hThere)).mono
            fun _ _ _ hPaged => ⟨hPaged.answer, hPaged.done, hRely.trans hPaged.rely⟩
        · have hNone : session.expected.get file.sha256 = none := by
            simpa [Session.addFile] using hUnknown
          have hExpect := h₁.expect hHere hNone
          rw [List.append_assoc] at hExpect
          exact (ih hNext hInv₁ hExpect).mono
            fun _ _ _ hPaged => ⟨hPaged.answer, hPaged.done, hRely.trans hPaged.rely⟩

theorem openManifest_of_open {session : Session} {repo : String} (hDone : session.done = false)
    (hRepo : session.repo = some repo) : session.openManifest repo = session := by
  unfold Session.openManifest
  rw [if_neg]
  rintro (h | h)
  · rw [hDone] at h
    cases h
  · exact h hRepo

/-- What a page leaves of the manifest and of the blobs it has asked for. -/
structure Accepted (p : JobPid) (source : Source host) (sent : List BuildFile)
    (asked : List Digest) (done : Bool) (v : World) (answer : Except Refusal (List Digest)) :
    Prop where
  answer : ∃ missing, answer = .ok missing ∧
    Sending source sent (asked ++ missing) (v.sessions p) v
  done : (v.sessions p).done = done

theorem accepted_stable {sent : List BuildFile} {asked : List Digest}
    {answer : Except Refusal (List Digest)} :
    (contract host).Stable p (Accepted p source sent asked done · answer) := by
  intro v v' _ _ hRely h
  obtain ⟨missing, hAnswer, hSending⟩ := h.answer
  refine ⟨⟨missing, hAnswer, ?_⟩, ?_⟩
  · rw [hRely.session]
    exact hSending.mono hRely.blobs
  · rw [hRely.session]
    exact h.done

theorem safe_syncManifest_page {sent page rest : List BuildFile} {asked : List Digest}
    {session : Session} (hInv : Inv host w) (hSource : source.files = sent ++ (page ++ rest))
    (h : Sending source sent asked (session.openManifest source.repo) w) :
    SafeCode host roomy p (syncManifest host source.repo (page.map some) done session)
      (fun r v => Paged p source (sent ++ page) asked done w v r) w := by
  have hCount : ¬ maxManifestFiles <
      (session.openManifest source.repo).files.entries.length + (page.map some).length := by
    have hAll := source.count_le
    rw [hSource] at hAll
    rw [h.files]
    simp only [List.length_append, List.length_map] at hAll ⊢
    omega
  dsimp only [syncManifest]
  rw [if_neg hCount]
  rw [← List.append_nil asked] at h
  refine Safe.bind (safe_syncFiles_page asked page hSource hInv h) ?_
  rintro ⟨session', answer⟩ v hInv₁ hPaged
  obtain ⟨missing, rfl, hSending⟩ := hPaged.answer
  refine Safe.ret hInv₁ paged_stable ⟨⟨missing, rfl, ?_⟩, rfl, hPaged.rely⟩
  exact ⟨hSending.repo, hSending.incoming, hSending.files, hSending.bytes, hSending.owed,
    hSending.nodup, hSending.expected, hSending.present⟩

/-- A page of a source is accepted. -/
theorem safe_handleSync_page {sent page rest : List BuildFile} {asked : List Digest}
    (hRoomy : roomy p = true) (hSource : source.files = sent ++ (page ++ rest))
    (h : Sending source sent asked ((w.sessions p).openManifest source.repo) w) :
    SafeCode host roomy p
      (handleSync host ⟨source.repo, some (page.map some), some done⟩)
      (fun answer v => Accepted p source (sent ++ page) asked done v answer) w := by
  unfold handleSync
  refine Safe.bind (Q := fun answer v => Accepted p source (sent ++ page) asked done v answer)
    ?_ fun answer v hInv hAccepted => ?_
  · unfold sync
    simp only [source.repo_valid]
    refine safe_lowDisk fun w₁ low hInv₁ hRely₁ hRoom => ?_
    rw [hRoom hRoomy]
    refine safe_load fun w₂ hInv₂ hRely₂ => ?_
    rw [hRely₂.session.trans hRely₁.session]
    have h₂ := (h.mono hRely₁.blobs).mono hRely₂.blobs
    refine Safe.bind (safe_syncManifest_page hInv₂ hSource h₂) ?_
    rintro ⟨session, answer⟩ w₃ hInv₃ hPaged
    obtain ⟨missing, rfl, hSending⟩ := hPaged.answer
    refine safe_store fun w₄ hInv₄ hRely₄ => ?_
    refine Safe.ret (hInv₄.frame rfl rfl rfl rfl) accepted_stable ⟨⟨missing, rfl, ?_⟩, ?_⟩
    · simp only [Function.update_self]
      exact hSending.mono hRely₄.blobs
    · simp only [Function.update_self]
      exact hPaged.done
  · refine safe_reply fun v₁ hInv₁ hRely => ?_
    have h₁ := accepted_stable hInv hInv₁ hRely hAccepted
    obtain ⟨missing, hAnswer, hSending⟩ := h₁.answer
    exact Safe.ret (hInv₁.frame rfl rfl rfl rfl) accepted_stable
      ⟨⟨missing, hAnswer, hSending.mono id⟩, h₁.done⟩

/-- What the pages leave: the blobs that are still owed, the session sound. -/
structure Owing (p : JobPid) (source : Source host) (owed : List Digest) (v : World) : Prop where
  sending : Sending source source.files owed (v.sessions p) v
  done : (v.sessions p).done = true
  sound : Sound p v

theorem owing_stable {owed : List Digest} : (contract host).Stable p (Owing p source owed) := by
  intro v v' _ _ hRely h
  refine ⟨?_, ?_, h.sound.rely hRely⟩
  · rw [hRely.session]
    exact h.sending.mono hRely.blobs
  · rw [hRely.session]
    exact h.done

/-- Every page is accepted, and the last one ends the manifest. -/
theorem safe_syncPages (hRoomy : roomy p = true) (pages : List (List BuildFile)) :
    ∀ {sent : List BuildFile} {asked : List Digest} {w : World}, pages ≠ [] →
      source.files = sent ++ pages.flatten → Inv host w → Sound p w →
        Sending source sent asked ((w.sessions p).openManifest source.repo) w →
          SafeCode host roomy p (syncPages host source.repo pages asked)
            (fun r v => ∃ owed, r = .ok owed ∧ Owing p source owed v) w := by
  induction pages with
  | nil =>
      intro sent asked w hPages
      exact absurd rfl hPages
  | cons page pages ih =>
      intro sent asked w _ hSource hInv hSound h
      rw [List.flatten_cons] at hSource
      unfold syncPages
      refine Safe.bind ((safe_handleSync_page hRoomy hSource h).and
        (safe_handleSync hInv hSound)) ?_
      rintro answer v hInv₁ ⟨hAccepted, hSound₁⟩
      obtain ⟨missing, rfl, hSending⟩ := hAccepted.answer
      show SafeCode host roomy p (syncPages host source.repo pages (asked ++ missing)) _ _
      cases hPages : pages with
      | nil =>
          have hAll : sent ++ page = source.files := by
            rw [hSource, hPages]
            simp
          have hStable : (contract host).Stable p fun v => ∃ owed,
              (Except.ok (asked ++ missing) : Except String (List Digest)) = .ok owed ∧
                Owing p source owed v := by
            rintro v v' hv hv' hRely ⟨owed, hOwed, hOwing⟩
            exact ⟨owed, hOwed, owing_stable hv hv' hRely hOwing⟩
          refine Safe.ret hInv₁ hStable ⟨_, rfl, ?_, ?_, hSound₁⟩
          · rw [← hAll]
            exact hSending
          · rw [hAccepted.done, hPages]
            rfl
      | cons next pages' =>
          rw [← hPages]
          have hNext : source.files = (sent ++ page) ++ pages.flatten := by
            rw [hSource, List.append_assoc]
          refine ih (hPages ▸ List.cons_ne_nil _ _) hNext hInv₁ hSound₁ ?_
          have hOpen : (v.sessions p).done = false := by
            rw [hAccepted.done, hPages]
            rfl
          rw [openManifest_of_open hOpen hSending.repo]
          exact hSending

/-! ## Frames -/

/-- The session once the bytes `fed` of a blob have come. -/
inductive Feeding (session : Session) (sha256 : Digest) (content : Bytes) : Bytes → Prop
  | first (hIncoming : session.incoming = none)
      (hSize : session.expected.get sha256 = some content.length) :
      Feeding session sha256 content []
  | next {incoming : Incoming} (hIncoming : session.incoming = some incoming)
      (hSha : incoming.sha256 = sha256) (hSize : incoming.size = content.length)
      (hReceived : incoming.received = incoming.hash.length) :
      Feeding session sha256 content incoming.hash

/-- The upload a frame of the blob goes to. -/
structure Fed (sha256 : Digest) (content fed : Bytes) (incoming : Incoming) : Prop where
  sha256 : incoming.sha256 = sha256
  size : incoming.size = content.length
  hash : incoming.hash = fed
  received : incoming.received = fed.length

section Frames

variable {session : Session} {sha256 : Digest} {content fed data : Bytes} {frame : Bytes}

theorem Feeding.takes {incoming : Incoming} (h : Feeding session sha256 content fed)
    (hTakes : session.Takes sha256 incoming) : Fed sha256 content fed incoming := by
  cases h with
  | first hIncoming hSize =>
      cases hTakes with
      | next hOther _ =>
          rw [hIncoming] at hOther
          cases hOther
      | first tmp _ hExpected =>
          rw [hSize] at hExpected
          exact ⟨rfl, (Option.some.inj hExpected).symm, rfl, rfl⟩
  | next hIncoming hSha hSize hReceived =>
      cases hTakes with
      | next hOther _ =>
          rw [hIncoming] at hOther
          cases hOther
          exact ⟨hSha, hSize, rfl, hReceived⟩
      | first tmp hOther _ =>
          rw [hIncoming] at hOther
          cases hOther

/-- A frame of a blob: its digest and some of its bytes. -/
structure FrameOf (sha256 : Digest) (data frame : Bytes) : Prop where
  length : digestBytes ≤ frame.length
  sha256 : frameSha frame = sha256
  data : frame.drop digestBytes = data

theorem frameOf_decode (hSha : isDigest sha256 = true) :
    FrameOf sha256 data (Hex.decode sha256.toList ++ data) := by
  simp only [isDigest, Bool.and_eq_true, decide_eq_true_eq, List.all_eq_true] at hSha
  obtain ⟨hText, hLength⟩ := Hex.encode_decode digestBytes (hSha.1.trans rfl) hSha.2
  refine ⟨?_, ?_, ?_⟩
  · rw [List.length_append, hLength]
    exact Nat.le_add_right _ _
  · rw [frameSha, ← hLength, List.take_left, hText, String.ofList_toList]
  · rw [← hLength, List.drop_left]

theorem Feeding.fits {rest : Bytes} (h : Feeding session sha256 content fed)
    (hRoomy : roomy p = true) (hFrame : FrameOf sha256 data frame)
    (hContent : fed ++ (data ++ rest) = content) (hSha : host.sha256 content = sha256) :
    Fits host roomy p session frame := by
  have hLength : content.length = fed.length + (data.length + rest.length) := by
    rw [← hContent, List.length_append, List.length_append]
  refine ⟨⟨hFrame.length, ?_, ?_⟩, ?_, ?_⟩
  · intro incoming hIncoming
    cases h with
    | first hNone _ =>
        rw [hNone] at hIncoming
        cases hIncoming
    | next hSame hShaSame _ _ =>
        rw [hSame] at hIncoming
        cases hIncoming
        exact hShaSame.trans hFrame.sha256.symm
  · intro hIncoming
    cases h with
    | first _ hSize => exact ⟨hRoomy, by rw [hFrame.sha256, hSize]; rfl⟩
    | next hSame _ _ _ =>
        rw [hIncoming] at hSame
        cases hSame
  · intro incoming hTakes
    have hFed := h.takes (hFrame.sha256 ▸ hTakes)
    rw [hFrame.data, hFed.received, hFed.size]
    omega
  · intro incoming hTakes hAll
    have hFed := h.takes (hFrame.sha256 ▸ hTakes)
    rw [hFrame.data, hFed.received, hFed.size] at hAll
    have hRest : rest = [] := List.length_eq_zero_iff.mp (by omega)
    rw [hRest, List.append_nil] at hContent
    rw [hFrame.data, hFed.hash, hFed.sha256, hContent, hSha]

end Frames

/-- A blob that came whole. -/
structure Uploaded (p : JobPid) (session : Session) (sha256 : Digest) (synced : List Exchange)
    (v : World) : Prop where
  session : v.sessions p = { session with
    incoming := none, expected := session.expected.delete sha256 }
  synced : v.synced p = synced
  blob : (v.blobs sha256).isSome

theorem uploaded_stable {session : Session} {sha256 : Digest} {synced : List Exchange} :
    (contract host).Stable p (Uploaded p session sha256 synced) :=
  fun _ _ hRely h =>
    ⟨hRely.session.trans h.session, hRely.synced.trans h.synced, hRely.blobs h.blob⟩

/-- Every frame of a blob is taken, and the last one puts the blob in place. -/
theorem safe_sendFrames {sha256 : Digest} {content : Bytes} (hRoomy : roomy p = true)
    (hDigest : isDigest sha256 = true) (hSha : host.sha256 content = sha256) (frames : List Bytes) :
    ∀ {data fed : Bytes} {w : World}, (∀ data ∈ frames, data ≠ []) →
      fed ++ (data ++ frames.flatten) = content → Inv host w → Sound p w →
        Feeding (w.sessions p) sha256 content fed →
          SafeCode host roomy p (sendFrames host (Hex.decode sha256.toList) (data :: frames))
            (fun r v => r = none ∧ Uploaded p (w.sessions p) sha256 (w.synced p) v) w := by
  induction frames with
  | nil =>
      intro data fed w _ hContent hInv hSound h
      have hFrame : FrameOf sha256 data (Hex.decode sha256.toList ++ data) :=
        frameOf_decode hDigest
      have hFits := h.fits hRoomy hFrame hContent hSha
      refine Safe.bind (safe_handleBinary hInv hSound) fun answer v hInv₁ hHandled => ?_
      cases hHandled with
      | ended _ _ hNot => exact absurd hFits hNot
      | taken hTakes hReceived =>
          have hFed := h.takes (hFrame.sha256 ▸ hTakes)
          have hStable : (contract host).Stable p fun v => (none : Option String) = none ∧
              Uploaded p (w.sessions p) sha256 (w.synced p) v :=
            fun hv hv' hRely h => ⟨h.1, uploaded_stable hv hv' hRely h.2⟩
          refine Safe.ret hInv₁ hStable ⟨rfl, ?_⟩
          obtain ⟨hReceived, hSynced⟩ := hReceived
          cases hReceived with
          | more hSize _ _ =>
              -- the last frame reaches the blob's size
              rw [hFrame.data, hFed.received, hFed.size, ← hContent] at hSize
              simp at hSize
          | whole _ _ hSession hBlob =>
              rw [hFed.sha256] at hSession hBlob
              exact ⟨hSession, hSynced, hBlob⟩
  | cons next frames ih =>
      intro data fed w hFrames hContent hInv hSound h
      have hFrame : FrameOf sha256 data (Hex.decode sha256.toList ++ data) :=
        frameOf_decode hDigest
      have hFits := h.fits hRoomy hFrame hContent hSha
      refine Safe.bind (safe_handleBinary hInv hSound) fun answer v hInv₁ hHandled => ?_
      cases hHandled with
      | ended _ _ hNot => exact absurd hFits hNot
      | taken hTakes hReceived =>
          have hFed := h.takes (hFrame.sha256 ▸ hTakes)
          have hSound₁ := hReceived.sound hSound.synced
          obtain ⟨hReceived, hSynced⟩ := hReceived
          cases hReceived with
          | whole hSize _ _ _ =>
              -- there are bytes left for the frames that follow
              have hNext := List.length_pos_iff.mpr (hFrames next (List.mem_cons_self ..))
              rw [hFrame.data, hFed.received, hFed.size, ← hContent] at hSize
              simp only [List.flatten_cons, List.length_append] at hSize
              omega
          | more _ hSession hHeld =>
              rw [hFrame.data] at hSession hHeld
              have hNext : Feeding (v.sessions p) sha256 content (fed ++ data) := by
                rw [← hFed.hash]
                exact .next (congrArg Session.incoming hSession) hFed.sha256 hFed.size
                  hHeld.received
              have hRest : (fed ++ data) ++ (next ++ frames.flatten) = content := by
                rw [← hContent, List.flatten_cons, List.append_assoc]
              refine (ih (fun data hData => hFrames data (List.mem_cons_of_mem _ hData)) hRest
                hInv₁ hSound₁ hNext).mono ?_
              rintro r v' - ⟨hr, hUploaded⟩
              refine ⟨hr, ?_, hUploaded.synced.trans hSynced, hUploaded.blob⟩
              rw [hUploaded.session, hSession]

/-! ## Blobs -/

theorem mem_of_bySha {sha256 : Digest} {file : BuildFile}
    (h : source.bySha.get sha256 = some file) : file ∈ source.files ∧ file.sha256 = sha256 := by
  obtain ⟨other, hOther, hEq⟩ := List.mem_map.mp (OrderedMap.mem_of_get_ofList h)
  cases hEq
  exact ⟨hOther, rfl⟩

theorem bySha_isSome {file : BuildFile} (h : file ∈ source.files) :
    (source.bySha.get file.sha256).isSome :=
  OrderedMap.get_ofList_isSome (List.mem_map_of_mem h)

/-- The session after a blob that was owed has come. -/
theorem Sending.uploaded {sha256 : Digest} {owed : List Digest} {session session' : Session}
    (h : Sending source source.files (sha256 :: owed) session w)
    (hSession : session' = { session with
      incoming := none, expected := session.expected.delete sha256 })
    (hBlobs : ∀ {sha256}, (w.blobs sha256).isSome → (w'.blobs sha256).isSome)
    (hBlob : (w'.blobs sha256).isSome) : Sending source source.files owed session' w' := by
  subst hSession
  obtain ⟨hNew, hNodup⟩ := List.nodup_cons.mp h.nodup
  refine ⟨h.repo, rfl, h.files, h.bytes, ?_, hNodup, ?_, ?_⟩
  · intro other hOther
    obtain ⟨file, hFile, hSha, hSize⟩ := h.owed other (List.mem_cons_of_mem _ hOther)
    have hDiff : other ≠ sha256 := fun hEq => hNew (hEq ▸ hOther)
    exact ⟨file, hFile, hSha, (OrderedMap.get_delete_of_ne hDiff).trans hSize⟩
  · intro file hFile hSome
    have hDiff : file.sha256 ≠ sha256 := by
      intro hEq
      rw [hEq, OrderedMap.get_delete_self] at hSome
      cases hSome
    rw [OrderedMap.get_delete_of_ne hDiff] at hSome
    rcases List.mem_cons.mp (h.expected file hFile hSome) with hEq | hOwed
    · exact absurd hEq hDiff
    · exact hOwed
  · intro file hFile hNot
    by_cases hEq : file.sha256 = sha256
    · rw [hEq]
      exact hBlob
    · exact hBlobs (h.present file hFile fun hMem => (List.mem_cons.mp hMem).elim hEq hNot)

/-- Every blob that is owed comes whole. -/
theorem safe_sendBlobs (hSha : Function.Injective host.sha256) (hRoomy : roomy p = true)
    (owed : List Digest) :
    ∀ {w : World}, Inv host w → Owing p source owed w →
      SafeCode host roomy p (sendBlobs source owed)
        (fun r v => r = none ∧ Owing p source [] v) w := by
  have hStable : (contract host).Stable p fun v => (none : Option String) = none ∧
      Owing p source [] v :=
    fun hv hv' hRely h => ⟨h.1, owing_stable hv hv' hRely h.2⟩
  induction owed with
  | nil =>
      intro w hInv h
      exact Safe.ret hInv hStable ⟨rfl, h⟩
  | cons sha256 owed ih =>
      intro w hInv h
      obtain ⟨file, hFile, hFileSha, hFileSize⟩ := h.sending.owed sha256 (List.mem_cons_self ..)
      obtain ⟨other, hOther⟩ := Option.isSome_iff_exists.mp (bySha_isSome hFile)
      obtain ⟨hMem, hOtherSha⟩ := mem_of_bySha hOther
      have hContentSha : host.sha256 (source.content other) = sha256 := by
        rw [source.content_sha256 other hMem, hOtherSha, hFileSha]
      -- entries of one digest have one content, so the size asked for is that of `other`
      have hSame : source.content file = source.content other := by
        refine hSha ?_
        rw [hContentSha, source.content_sha256 file hFile, hFileSha]
      have hSize : (w.sessions p).expected.get sha256 = some (source.content other).length := by
        rw [← hSame, source.content_length file hFile]
        exact hFileSize
      have hDigest : isDigest sha256 = true := by
        have hValid := source.files_valid file hFile
        rw [hFileSha.symm]
        simp only [validFile, Bool.and_eq_true] at hValid
        exact hValid.2
      obtain ⟨first, rest, hChunks, hRest⟩ :=
        chunks_eq_cons (source.content other) (by decide : 0 < chunkBytes)
      have hFlatten : [] ++ (first ++ rest.flatten) = source.content other := by
        rw [List.nil_append, ← List.flatten_cons, ← hChunks]
        exact flatten_chunks (by decide)
      unfold sendBlobs
      rw [← hFileSha, hOther, hFileSha]
      show SafeCode host roomy p (ite _ _ _) _ _
      rw [if_neg (not_not.mpr hContentSha), hChunks]
      refine Safe.bind (safe_sendFrames hRoomy hDigest hContentSha rest hRest hFlatten hInv
        h.sound (.first h.sending.incoming hSize)).grows ?_
      rintro answer v hInv₁ ⟨⟨rfl, hUploaded⟩, hBlobs⟩
      refine ih hInv₁ ⟨h.sending.uploaded hUploaded.session (hBlobs _) hUploaded.blob, ?_, ?_, ?_⟩
      · rw [hUploaded.session]
        exact h.done
      · rw [hUploaded.session]
        intro incoming hIncoming
        cases hIncoming
      · rw [hUploaded.session, hUploaded.synced]
        exact h.sound.synced

/-! ## The upload and the start after it -/

/-- A session with nothing unfinished that the source would meet. -/
structure Ready (source : Source host) (session : Session) : Prop where
  incoming : session.incoming = none
  expected : ∀ file ∈ source.files, session.expected.get file.sha256 = none
  manifest : session.done = true ∨ session.repo ≠ some source.repo ∨
    session.files.entries = [] ∧ session.bytes = 0

/-- Parameters of `build.start` that pass the checks on them. -/
structure Fitting (source : Source host) (params : StartParams) : Prop where
  repo : params.repo = source.repo
  shape : params.shape = none
  options : params.options = none
  project : params.project = "" ∨ validBuildPath params.project = true
  kinds : params.native = true ∨ ∀ file ∈ source.files, file.kind ≠ .directory
  compat : params.compat = true

theorem Ready.sending {session : Session} (h : Ready source session) (w : World) :
    Sending source [] [] (session.openManifest source.repo) w := by
  have hFiles : (session.openManifest source.repo).files.entries = [] ∧
      (session.openManifest source.repo).bytes = 0 := by
    unfold Session.openManifest
    split
    · exact ⟨rfl, rfl⟩
    · rename_i hOpen
      rcases h.manifest with hDone | hRepo | hFiles
      · exact absurd (.inl hDone) hOpen
      · exact absurd (.inr hRepo) hOpen
      · exact hFiles
  refine ⟨openManifest_repo _ _, ?_, hFiles.1, hFiles.2, by simp, List.nodup_nil, ?_, by simp⟩
  · rw [openManifest_incoming, h.incoming]
  · intro file hFile hSome
    rw [openManifest_expected, h.expected file hFile] at hSome
    cases hSome

theorem Owing.files_values (h : Owing p source [] w) :
    (w.sessions p).files.values = source.files := by
  rw [OrderedMap.values, h.sending.files, List.map_map]
  exact List.map_id _

/-- With nothing owed, `start` finds the manifest complete. -/
theorem Owing.startRefusal (h : Owing p source [] w) {params : StartParams}
    (hParams : Fitting source params) : BuildSession.startRefusal (w.sessions p) params = none := by
  have hUnowed : ∀ file ∈ source.files,
      (w.sessions p).expected.get file.sha256 = none := by
    intro file hFile
    rw [← Option.not_isSome_iff_eq_none]
    exact fun hSome => List.not_mem_nil (h.sending.expected file hFile hSome)
  have hUploads : source.files.any
      (fun file => ((w.sessions p).expected.get file.sha256).isSome) = false := by
    rw [List.any_eq_false]
    intro file hFile
    rw [hUnowed file hFile]
    exact Bool.false_ne_true
  have hKinds : (!params.native && source.files.any fun file => file.kind = .directory) = false := by
    rcases hParams.kinds with hNative | hKinds
    · rw [hNative]
      rfl
    · rw [Bool.and_eq_false_iff, List.any_eq_false]
      exact .inr fun file hFile => by simpa using hKinds file hFile
  unfold BuildSession.startRefusal
  rw [h.files_values, hUploads, hKinds]
  simp only [hParams.repo, source.repo_valid, hParams.shape, hParams.options, h.done,
    h.sending.repo, h.sending.incoming]
  simpa using fun hNamed => hParams.project.resolve_left hNamed

/-- How an upload ends. -/
structure Delivered (source : Source host) (outcome : Outcome) (v : World) : Prop where
  outcome : ∃ refusal, outcome = .started (.launched source.files refusal)
  blobs : ∀ file ∈ source.files, (v.blobs file.sha256).isSome

/-- **Upload.**  A source sent to a ready session is launched as its manifest. -/
theorem safe_offload {params : StartParams} (hSha : Function.Injective host.sha256)
    (hRoomy : roomy p = true) (hParams : Fitting source params) (hInv : Inv host w)
    (hSound : Sound p w) (hReady : Ready source (w.sessions p)) :
    SafeCode host roomy p (offload source params)
      (fun outcome v => Delivered source outcome v ∧ Sound p v) w := by
  have hSynced : SafeCode host roomy p (syncSource source)
      (fun r v => r = none ∧ Owing p source [] v) w := by
    refine Safe.bind (safe_syncPages hRoomy source.pages (batches_ne_nil source.files)
      (flatten_batches source.files).symm hInv hSound (hReady.sending w)) ?_
    rintro answer v hInv₁ ⟨owed, rfl, hOwing⟩
    exact safe_sendBlobs hSha hRoomy owed hInv₁ hOwing
  refine Safe.bind hSynced ?_
  rintro answer v hInv₁ ⟨rfl, hOwing⟩
  have hBlobs : ∀ file ∈ source.files, (v.blobs file.sha256).isSome :=
    fun file hFile => hOwing.sending.present file hFile List.not_mem_nil
  have hStart : SafeCode host roomy p (start params) (fun r v' => Begun p params v v' r) v :=
    safe_start hOwing.sound
  refine Safe.bind hStart.grows ?_
  rintro result v₁ hInv₂ ⟨hBegun, hGrows⟩
  obtain ⟨refusal, hLaunched⟩ := hBegun.launched (hOwing.startRefusal hParams) hParams.compat
    (by rwa [hOwing.files_values])
  rw [hOwing.files_values] at hLaunched
  have hStable : (contract host).Stable p fun v =>
      Delivered source (.started result) v ∧ Sound p v :=
    fun _ _ hRely h =>
      ⟨⟨h.1.outcome, fun file hFile => hRely.blobs (h.1.blobs file hFile)⟩, h.2.rely hRely⟩
  exact Safe.ret hInv₂ hStable ⟨⟨⟨refusal, congrArg Outcome.started hLaunched⟩,
    fun file hFile => hGrows _ (hBlobs file hFile)⟩, hBegun.sound⟩

/-! ## Every run -/

/-- What a returned call promises beside its session. -/
def Call.Promise : (call : Call host) → call.Ret → World → Prop
  | .offload source _, outcome, w => Delivered source outcome w
  | _, _, _ => True

/-- An upload meets a ready session of a process with room; one that does not is the requests it
sends. -/
def Admissible (s : (system host roomy).State) : (system host roomy).Choice → Prop
  | .invoke p (.offload source params) =>
      roomy p = true ∧ Ready source (s.world.sessions p) ∧ Fitting source params
  | _ => True

def Returned (p : JobPid) (call : Call host) (r : call.Ret) (w : World) : Prop :=
  call.Promise r w ∧ Resting p w

theorem safe_call {call : Call host} {s : (system host roomy).State}
    (hSha : Function.Injective host.sha256) (hInv : Inv host s.world) (hSound : Sound p s.world)
    (hOk : Admissible s (.invoke p call)) :
    SafeCode host roomy p call.prog (Returned p call) s.world := by
  cases call with
  | sync params => exact (safe_handleSync hInv hSound).mono fun _ _ _ h => ⟨trivial, fun _ => h⟩
  | blob frame =>
      exact (safe_handleBinary hInv hSound).mono
        fun _ _ _ h => ⟨trivial, h.resting hSound.synced⟩
  | start params =>
      exact (safe_start hSound).mono fun _ _ _ h => ⟨trivial, fun _ => h.sound⟩
  | close =>
      refine (safe_close fun incoming h => (hSound.incoming incoming h).drew).mono ?_
      intro _ v _ hEnded
      refine ⟨trivial, fun hAlive => ?_⟩
      rw [hEnded] at hAlive
      cases hAlive
  | offload source params =>
      obtain ⟨hRoomy, hReady, hParams⟩ := hOk
      exact (safe_offload hSha hRoomy hParams hInv hSound hReady).mono
        fun _ _ _ h => ⟨h.1, fun _ => h.2⟩

theorem guar_refl (h : Inv host w) : (contract host).Guar p w w := ⟨h, fun q _ => .refl q w⟩

theorem verified (hSha : Function.Injective host.sha256) :
    Interleaving.Verified (system host roomy) (contract host) Admissible Resting Returned where
  idle p := resting_stable
  invoke := by
    intro s p call w' hInv hIdle hOk hInvoke
    simp only [system, Option.ite_none_right_eq_some, Option.some.injEq] at hInvoke
    obtain ⟨hAlive, rfl⟩ := hInvoke
    exact ⟨guar_refl hInv, safe_call hSha hInv (hIdle hAlive) hOk⟩
  finish := by
    rintro w p call r w' hInv hReturned ⟨⟩
    exact ⟨guar_refl hInv, hReturned.2⟩
  crash := by
    rintro s p w' hInv _ ⟨⟩
    refine ⟨guar_private hInv rfl rfl rfl rfl (fun q hq => Function.update_of_ne hq _ _)
      (fun _ _ => rfl) fun _ _ => rfl, ?_⟩
    intro hAlive
    simp only [Function.update_self] at hAlive
    cases hAlive
  env := by
    rintro w w' oracle _ ⟨⟩

/-- A client's directory with no connection open yet: any blobs that are right, and what dead
processes left of their uploads. -/
structure Initial (host : Host) (w : World) : Prop where
  blobs : ∀ sha256 content, w.blobs sha256 = some content → host.sha256 content = sha256
  tmps : ∀ tmp, (w.tmps tmp).isSome → tmp ∈ w.drawn.map Prod.fst
  drawn : (w.drawn.map Prod.fst).Nodup
  sessions : ∀ p, w.sessions p = .fresh
  launches : w.launches = []

theorem Initial.inv (h : Initial host w) : Inv host w :=
  ⟨h.blobs, h.tmps, h.drawn, by simp [h.launches]⟩

theorem Initial.resting (h : Initial host w) (p : JobPid) : Resting p w := by
  intro _
  refine ⟨?_, ?_⟩
  · rw [h.sessions]
    intro incoming hIncoming
    cases hIncoming
  · rw [h.sessions]
    exact synced_fresh _

theorem exec_total (o : Op) (w : World) :
    ∃ oracle r w', exec host roomy oracle p o w = some (r, w') := by
  obtain ⟨tmp, hTmp⟩ := Infinite.exists_notMem_finset (w.drawn.map Prod.fst).toFinset
  rw [List.mem_toFinset] at hTmp
  refine ⟨⟨none, tmp, none⟩, ?_⟩
  cases o with
  | lowDisk bytes => exact ⟨none, w, by simp [exec, lowDisk]⟩
  | randomUUID => exact ⟨tmp, _, if_neg hTmp⟩
  | _ => exact ⟨_, _, rfl⟩

/-- Blobs are content-addressed, `start` launches only a manifest that its last request completed
and whose blobs are there, and an upload can return and always launches exactly its source. -/
theorem upload_complete (hSha : Function.Injective host.sha256) (hw : Initial host w)
    {s : (system host roomy).State}
    (hReach : (system host roomy).Reach Admissible ((system host roomy).start w) s) :
    (∀ sha256 content, s.world.blobs sha256 = some content →
      ∀ other, host.sha256 other = sha256 ↔ other = content) ∧
    (∀ launch ∈ s.world.launches, Completed launch.repo launch.synced ∧
      ∀ file ∈ launch.manifest, (s.world.blobs file.sha256).isSome) ∧
    (∀ p (source : Source host) params outcome,
      s.code p = some ⟨.offload source params, .ret outcome⟩ →
        (∃ refusal, outcome = .started (.launched source.files refusal)) ∧
        ∀ file ∈ source.files, s.world.blobs file.sha256 = some (source.content file)) ∧
    ∀ p (source : Source host) params code,
      s.code p = some ⟨.offload source params, code⟩ →
        ∃ (oracles : List Oracle) (s' : (system host roomy).State) (outcome : Outcome),
          (system host roomy).run (oracles.map (.act p)) s = some s' ∧
            s'.code p = some ⟨.offload source params, .ret outcome⟩ := by
  have hVerified : Interleaving.Verified (system host roomy) (contract host) Admissible Resting
      Returned := verified hSha
  have hSafe := hVerified.sound hw.inv hw.resting hReach
  have hInv : Inv host s.world := hSafe.inv
  refine ⟨?_, hInv.launches, ?_, ?_⟩
  · intro sha256 content hBlob other
    rw [← hInv.blobs sha256 content hBlob]
    exact hSha.eq_iff
  · intro p source params outcome hCode
    have hReturned := hSafe.running p _ _ hCode s.world hInv (.refl p _)
    obtain ⟨hOutcome, hBlobs⟩ := hReturned.1
    refine ⟨hOutcome, fun file hFile => ?_⟩
    obtain ⟨content, hContent⟩ := Option.isSome_iff_exists.mp (hBlobs file hFile)
    rw [hContent]
    refine congrArg some (hSha ?_)
    rw [hInv.blobs _ _ hContent, source.content_sha256 file hFile]
  · intro p source params code hCode
    exact Interleaving.System.can_return exec_total hCode

/-! ## An upload of two files -/

def sha256Empty : Digest := "e3b0c44298fc1c149afbf4c8996fb92427ae41e4649b934ca495991b7852b855"

def sha256Hi : Digest := "8f434346648f6b96df89dda901c5176b10a6d83961dd3c1ac88b59b2dc327aa4"

def FileKind.text : FileKind → String
  | .file => "file"
  | .exec => "exec"
  | .link => "link"
  | .directory => "directory"

/-- A host that knows the digests of the empty content and of `hi`. -/
def smallHost : Host where
  sha256 content :=
    if content = [] then sha256Empty
    else if content = [104, 105] then sha256Hi
    else String.ofList ('+' :: content.map fun byte => Char.ofNat byte.toNat)
  json entry := match entry with
    | none => "null"
    | some file => "\x7b\"path\":\"" ++ file.path ++ "\",\"kind\":\"" ++ file.kind.text ++
        "\",\"size\":" ++ toString file.size ++ ",\"sha256\":\"" ++ file.sha256 ++ "\"\x7d"
  gb bytes :=
    let tenths := (10 * bytes + 1024 ^ 3 / 2) / 1024 ^ 3
    toString (tenths / 10) ++ "." ++ toString (tenths % 10)
  minFreeBytes := 10 * 1024 ^ 3
  maxManifestBytes := 8 * 1024 ^ 3

theorem charOfByte_injective : Function.Injective fun byte : UInt8 => Char.ofNat byte.toNat := by
  have hBack : ∀ n < 256, (Char.ofNat n).toNat = n := by decide +kernel
  intro a b h
  have hNat := congrArg Char.toNat h
  rw [hBack _ a.toNat_lt, hBack _ b.toNat_lt] at hNat
  exact UInt8.toNat_inj.mp hNat

theorem smallHost_injective : Function.Injective smallHost.sha256 := by
  intro a b h
  -- no other digest starts with `+`
  have hFirst : ∀ content : Bytes, ∀ digest ∈ [sha256Empty, sha256Hi],
      String.ofList ('+' :: content.map fun byte => Char.ofNat byte.toNat) ≠ digest := by
    intro content digest hDigest hEq
    have hHead := congrArg (fun text => text.toList.head?) hEq
    rw [String.toList_ofList, List.head?_cons] at hHead
    have hPlus : ∀ digest ∈ [sha256Empty, sha256Hi], digest.toList.head? ≠ some '+' := by
      decide +kernel
    exact hPlus digest hDigest hHead.symm
  have hTwo : sha256Empty ≠ sha256Hi := by decide
  simp only [smallHost] at h
  split_ifs at h with ha hb _ ha' _ hb'
  · rw [ha, hb]
  · exact absurd h hTwo
  · exact absurd h.symm (hFirst b _ (by simp))
  · exact absurd h.symm hTwo
  · rw [ha', hb']
  · exact absurd h.symm (hFirst b _ (by simp))
  · exact absurd h (hFirst a _ (by simp))
  · exact absurd h (hFirst a _ (by simp))
  · have hList := List.cons.inj (String.ofList_injective h)
    exact List.map_injective_iff.mpr charOfByte_injective hList.2

def emptyFile : BuildFile := ⟨"src/empty.txt", .file, 0, sha256Empty⟩
def hiFile : BuildFile := ⟨"hi.txt", .file, 2, sha256Hi⟩

def smallSource : Source smallHost where
  repo := "app"
  files := [emptyFile, hiFile]
  content file := if file = hiFile then [104, 105] else []
  repo_valid := by decide +kernel
  files_valid := by decide +kernel
  paths_nodup := by decide +kernel
  count_le := by decide +kernel
  bytes_le := by decide +kernel
  content_sha256 := by decide +kernel
  content_length := by decide +kernel

def smallStart : StartParams := ⟨"app", false, "", true, none, none⟩

def emptyWorld : World where
  blobs _ := none
  tmps _ := none
  drawn := []
  alive _ := true
  sessions _ := .fresh
  synced _ := []
  launches := []

theorem emptyWorld_initial : Initial host emptyWorld :=
  ⟨by simp [emptyWorld], by simp [emptyWorld], List.nodup_nil, fun _ => rfl, rfl⟩

theorem upload_complete_smallSource :
    ∃ s, (system smallHost fun _ => true).Reach Admissible
        ((system smallHost fun _ => true).start emptyWorld) s ∧
      (∃ refusal, s.code 0 = some ⟨.offload smallSource smallStart,
        .ret (.started (.launched [emptyFile, hiFile] refusal))⟩) ∧
      s.world.blobs sha256Empty = some [] ∧ s.world.blobs sha256Hi = some [104, 105] := by
  have hReady : Ready smallSource Session.fresh :=
    ⟨rfl, fun _ _ => rfl, .inr (.inl (by simp [Session.fresh]))⟩
  have hFitting : Fitting smallSource smallStart :=
    ⟨rfl, rfl, rfl, .inl rfl, .inr (by decide), rfl⟩
  have hStart : (system smallHost fun _ => true).Reach Admissible
      ((system smallHost fun _ => true).start emptyWorld)
      ⟨emptyWorld, Function.update (fun _ => none) 0 (some ⟨.offload smallSource smallStart,
        Call.prog (.offload smallSource smallStart)⟩)⟩ :=
    .step (.invoke 0 (.offload smallSource smallStart)) .start ⟨rfl, hReady, hFitting⟩ rfl
  obtain ⟨oracles, s, outcome, hRun, hCode⟩ :=
    (upload_complete smallHost_injective emptyWorld_initial hStart).2.2.2 0 smallSource
      smallStart _ rfl
  have hReach := hStart.of_run _ (fun choice hChoice _ => by
    obtain ⟨oracle, -, rfl⟩ := List.mem_map.mp hChoice
    trivial) hRun
  obtain ⟨⟨refusal, rfl⟩, hBlobs⟩ :=
    (upload_complete smallHost_injective emptyWorld_initial hReach).2.2.1 0 smallSource
      smallStart outcome hCode
  exact ⟨s, hReach, ⟨refusal, hCode⟩, hBlobs emptyFile (by decide), hBlobs hiFile (by decide)⟩

/-- One process: a finished manifest, a page that is declined for want of disk, a start. -/
def declinedRun : List (system smallHost fun _ => false).Choice :=
  [.invoke 0 (.sync ⟨"app", some [], some true⟩), .act 0 ⟨none, 0, none⟩, .act 0 ⟨none, 0, none⟩,
    .act 0 ⟨none, 0, none⟩, .act 0 ⟨none, 0, none⟩, .finish 0,
    .invoke 0 (.sync ⟨"app", some [], some false⟩), .act 0 ⟨some 0, 0, none⟩,
    .act 0 ⟨none, 0, none⟩, .finish 0,
    .invoke 0 (.start smallStart), .act 0 ⟨none, 0, none⟩, .act 0 ⟨none, 0, none⟩]

/-- A launch after a request for its repository that did not complete the manifest. -/
def launchedUncompleted (launch : Launch) : Bool :=
  (launch.synced.filter fun e => e.params.repo = launch.repo).getLast?.any fun last =>
    !last.completes

/-- A manifest that ends with an unsent blob, and then an upload of a source with that blob. -/
def unfinishedRun : List (system smallHost fun _ => true).Choice :=
  [.invoke 0 (.sync ⟨"app", some [some hiFile], some true⟩), .act 0 ⟨none, 0, none⟩,
    .act 0 ⟨none, 0, none⟩, .act 0 ⟨none, 0, none⟩, .act 0 ⟨none, 0, none⟩,
    .act 0 ⟨none, 0, none⟩, .finish 0,
    .invoke 0 (.offload smallSource smallStart)] ++
  List.replicate 12 (.act 0 ⟨none, 0, none⟩)

/-- How the upload of a process ended. -/
def outcomeOf (s : (system host roomy).State) (p : JobPid) : Option Outcome :=
  match s.code p with
  | some ⟨.offload _ _, .ret outcome⟩ => some outcome
  | _ => none

/-- A start after a declined page launches the manifest from before, and a session that still
waits for a blob refuses the start after an upload. -/
theorem not_upload_complete_unrestricted :
    (∃ s, (system smallHost fun _ => false).Reach (fun _ _ => True)
        ((system smallHost fun _ => false).start emptyWorld) s ∧
      ∃ launch ∈ s.world.launches, launchedUncompleted launch = true) ∧
    ∃ s, (system smallHost fun _ => true).Reach (fun _ _ => True)
        ((system smallHost fun _ => true).start emptyWorld) s ∧
      outcomeOf s 0 = some (.started (.refused
        ⟨.badRequest, "Some files of the manifest were not uploaded."⟩)) := by
  refine ⟨?_, ?_⟩
  · have hRun : (((system smallHost fun _ => false).run declinedRun
        ((system smallHost fun _ => false).start emptyWorld)).any fun s =>
          s.world.launches.any launchedUncompleted) = true := by decide +kernel
    obtain ⟨s, hEnd, hLaunch⟩ := (Option.any_eq_true _ _).mp hRun
    exact ⟨s, .of_run declinedRun .start (fun _ _ _ => trivial) hEnd, List.any_eq_true.mp hLaunch⟩
  · have hRun : (((system smallHost fun _ => true).run unfinishedRun
        ((system smallHost fun _ => true).start emptyWorld)).any fun s =>
          decide (outcomeOf s 0 = some (.started (.refused
            ⟨.badRequest, "Some files of the manifest were not uploaded."⟩)))) = true := by
      decide +kernel
    obtain ⟨s, hEnd, hOutcome⟩ := (Option.any_eq_true _ _).mp hRun
    exact ⟨s, .of_run unfinishedRun .start (fun _ _ _ => trivial) hEnd,
      of_decide_eq_true hOutcome⟩

end Stim.Cli.BuildSession
