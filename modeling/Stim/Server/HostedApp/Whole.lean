import Stim.Server.HostedApp

/-!
# Content is delivered whole

`Ok` says that complete content is what its digest names and that received content is a beginning
of it.  `Good` adds that no complete content is lost, which holds wherever a section is cut.  `Fine`
adds what holds when it is not: a `.part` file that was shorter than its content still is.

That last fact carries the answers.  An offer leaves a `.part` file of what it lists short, and
only a section that is cut leaves one full, which ends the connections that it was listed to.
-/

namespace Stim.HostedApp

open CutSection CutSection.Section

variable {Digest : Type} [DecidableEq Digest] {host : Host Digest}
variable {s t u : Storage Digest} {d : Digest} {file : Content Digest}
variable {record : HostedAppRecord Digest}

/-- A declared size is that of the content that the digest names. -/
def Declared (host : Host Digest) (file : Content Digest) : Prop :=
  ∃ content, host.sha content = file.sha256 ∧ content.length = file.size

structure HonestOffer (host : Host Digest) (offer : HostedAppOffer Digest) : Prop where
  manifest : Declared host offer.manifest
  files : ∀ content files, host.sha content = offer.manifest.sha256 →
    host.manifestFiles content = some files → ∀ file ∈ files, Declared host file.toContent

structure HonestRecord (host : Host Digest) (record : HostedAppRecord Digest) : Prop where
  manifest : Declared host record.manifest
  files : ∀ file ∈ record.files, Declared host file.toContent

structure Ok (host : Host Digest) (s : Storage Digest) : Prop where
  blobs : ∀ d content, s.blobs.get d = some content → host.sha content = d
  parts : ∀ d part, s.parts d = some part → ∃ content, host.sha content = d ∧ part <+: content
  offers : ∀ attempt metadata, s.apps.get attempt = some (some metadata) →
    HonestOffer host metadata.toHostedAppOffer

/-- A `.part` file, if there is one, is shorter than its content. -/
def Short (host : Host Digest) (s : Storage Digest) (d : Digest) : Prop :=
  ∀ part content, s.parts d = some part → host.sha content = d → part.length < content.length

structure Good (host : Host Digest) (s t : Storage Digest) : Prop where
  ok : Ok host t
  keeps : ∀ d content, s.blobs.get d = some content → t.blobs.get d = some content

structure Fine (host : Host Digest) (s t : Storage Digest) : Prop extends Good host s t where
  short : ∀ d, Short host s d → Short host t d
  temps : t.temps = s.temps

theorem Good.trans (h : Good host s t) (h' : Good host t u) : Good host s u :=
  ⟨h'.ok, fun d content hBlob => h'.keeps d content (h.keeps d content hBlob)⟩

theorem Fine.refl (h : Ok host s) : Fine host s s :=
  ⟨⟨h, fun _ _ => id⟩, fun _ => id, rfl⟩

theorem Fine.trans (h : Fine host s t) (h' : Fine host t u) : Fine host s u :=
  ⟨h.toGood.trans h'.toGood, fun d hShort => h'.short d (h.short d hShort),
    h'.temps.trans h.temps⟩

/-! ## Reading -/

variable {content : Bytes}

theorem valid_eq_true :
    validHostedAppBlob host (some content) file = true ↔
      content.length = file.size ∧ host.sha content = file.sha256 := by
  simp [validHostedAppBlob]

theorem blob_of_valid (h : validHostedAppBlob host (s.blobs.get d) file = true) :
    ∃ content, s.blobs.get d = some content := by
  cases hBlob : s.blobs.get d with
  | none => simp [hBlob, validHostedAppBlob] at h
  | some content => exact ⟨content, rfl⟩

omit [DecidableEq Digest] in
theorem Declared.size_eq (h : Declared host file) (hSha : Function.Injective host.sha)
    (hContent : host.sha content = file.sha256) : content.length = file.size := by
  obtain ⟨named, hNamed, hSize⟩ := h
  rw [← hSize, hSha (hContent.trans hNamed.symm)]

/-- What is there under a digest is valid, so what is not valid is not there. -/
theorem blob_eq_none (hSha : Function.Injective host.sha) (hOk : Ok host s)
    (hFile : Declared host file)
    (h : ¬ validHostedAppBlob host (s.blobs.get file.sha256) file = true) :
    s.blobs.get file.sha256 = none := by
  cases hBlob : s.blobs.get file.sha256 with
  | none => rfl
  | some content =>
      have hContent := hOk.blobs file.sha256 content hBlob
      rw [hBlob] at h
      exact absurd (valid_eq_true.mpr ⟨hFile.size_eq hSha hContent, hContent⟩) h

variable {attempt : String}

omit [DecidableEq Digest] in
theorem readHostedAppMetadata_ok {metadata : Metadata Digest}
    (h : readHostedAppMetadata s attempt = .ok metadata) :
    s.apps.get attempt = some (some metadata) ∧ metadata.attempt = attempt := by
  unfold readHostedAppMetadata at h
  split at h
  · next found hFound =>
    split at h
    · next hAttempt =>
      cases h
      exact ⟨hFound, hAttempt⟩
    · cases h
  · cases h

theorem readHostedApp_ok (h : readHostedApp host s attempt = .ok record) :
    s.apps.get attempt = some (some record.toMetadata) ∧ record.attempt = attempt ∧
      (record.files ≠ [] → ∃ content, s.blobs.get record.manifest.sha256 = some content ∧
        host.manifestFiles content = some record.files) ∧
      (record.state ≠ .receiving → record.files ≠ []) := by
  unfold readHostedApp at h
  split at h
  · cases h
  · next metadata hMetadata =>
    obtain ⟨hFound, hAttempt⟩ := readHostedAppMetadata_ok hMetadata
    split at h
    · split at h
      · next hState =>
        cases h
        exact ⟨hFound, hAttempt, fun hNo => absurd rfl hNo, fun hNo => absurd hState hNo⟩
      · cases h
    · next content hContent =>
      split at h
      · cases h
      · split at h
        · cases h
        · next files hFiles =>
          split at h
          · cases h
          · next hSome =>
            cases h
            refine ⟨hFound, hAttempt, fun _ => ⟨content, hContent, hFiles⟩, ?_⟩
            intro hState hEmpty
            exact hSome ⟨hEmpty, hState⟩

/-- What is read of an attempt is honest if its offer was. -/
theorem Ok.honestRecord (hOk : Ok host s) (h : readHostedApp host s attempt = .ok record) :
    HonestRecord host record := by
  obtain ⟨hFound, -, hFiles, -⟩ := readHostedApp_ok h
  have hOffer := hOk.offers attempt record.toMetadata hFound
  refine ⟨hOffer.manifest, fun file hFile => ?_⟩
  obtain ⟨content, hBlob, hParsed⟩ := hFiles (List.ne_nil_of_mem hFile)
  exact hOffer.files content record.files (hOk.blobs _ _ hBlob) hParsed file hFile

theorem HonestRecord.declared (h : HonestRecord host record)
    (hFile : record.content d = some file) : file.sha256 = d ∧ Declared host file := by
  unfold HostedAppRecord.content at hFile
  split at hFile
  · next hManifest =>
    cases hFile
    exact ⟨hManifest, h.manifest⟩
  · obtain ⟨found, hFound, rfl⟩ := Option.map_eq_some_iff.mp hFile
    exact ⟨by simpa using List.find?_some hFound, h.files found (List.mem_of_find?_eq_some hFound)⟩

theorem HonestRecord.declared_contents (h : HonestRecord host record) :
    ∀ file ∈ record.contents, Declared host file := by
  intro file hFile
  unfold HostedAppRecord.contents at hFile
  obtain ⟨⟨key, value⟩, hMem, rfl⟩ := List.mem_map.mp hFile
  have hListed := OrderedMap.mem_of_get_ofList (OrderedMap.get_eq_some_iff.mpr hMem)
  obtain ⟨content, hContent, hPair⟩ := List.mem_map.mp hListed
  cases hPair
  split at hContent
  · obtain rfl := List.mem_singleton.mp hContent
    exact h.manifest
  · obtain ⟨found, hFound, rfl⟩ := List.mem_map.mp hContent
    exact h.files found hFound

/-! ## File operations -/

theorem fine_rmBlob (hOk : Ok host s) (hNone : s.blobs.get d = none) :
    Fine host s (s.rmBlob d) where
  ok := by
    refine ⟨fun e content hBlob => ?_, hOk.parts, hOk.offers⟩
    by_cases hSame : e = d
    · subst hSame
      exact absurd hBlob (by simp [Storage.rmBlob, OrderedMap.get_delete_self])
    · rw [Storage.rmBlob, OrderedMap.get_delete_of_ne hSame] at hBlob
      exact hOk.blobs e content hBlob
  keeps e content hBlob := by
    have hNe : e ≠ d := by
      rintro rfl
      simp [hNone] at hBlob
    rwa [Storage.rmBlob, OrderedMap.get_delete_of_ne hNe]
  short _ := id
  temps := rfl

theorem fine_rmPart (hOk : Ok host s) : Fine host s (s.rmPart d) := by
  have hParts : ∀ e part, (s.rmPart d).parts e = some part → s.parts e = some part := by
    intro e part hPart
    by_cases hSame : e = d
    · subst hSame
      simp [Storage.rmPart] at hPart
    · simpa [Storage.rmPart, hSame] using hPart
  exact ⟨⟨⟨hOk.blobs, fun e part hPart => hOk.parts e part (hParts e part hPart), hOk.offers⟩,
    fun _ _ => id⟩, fun e hShort part content hPart => hShort part content (hParts e part hPart),
    rfl⟩

/-- Complete content comes to where none is. -/
theorem fine_setBlob (hOk : Ok host s) (hNone : s.blobs.get d = none)
    (hSha : host.sha content = d) (hBlobs : t.blobs = s.blobs.set d content)
    (hParts : ∀ e part, t.parts e = some part → s.parts e = some part) (hApps : t.apps = s.apps) :
    Good host s t ∧ ∀ e, Short host s e → Short host t e := by
  refine ⟨⟨⟨fun e found hBlob => ?_, fun e part hPart => hOk.parts e part (hParts e part hPart),
    hApps ▸ hOk.offers⟩, fun e found hBlob => ?_⟩,
    fun e hShort part found hPart => hShort part found (hParts e part hPart)⟩
  · rw [hBlobs, OrderedMap.get_set] at hBlob
    split at hBlob
    · next hSame =>
      cases hBlob
      rw [hSame, hSha]
    · exact hOk.blobs e found hBlob
  · have hNe : e ≠ d := by
      rintro rfl
      simp [hNone] at hBlob
    rw [hBlobs, OrderedMap.get_set_of_ne hNe, hBlob]

/-- The whole of a `.part` file becomes complete content. -/
theorem fine_renamePart (hOk : Ok host s) (hNone : s.blobs.get d = none)
    (hPart : s.parts d = some content) (hSha : host.sha content = d) :
    Fine host s (s.renamePart d) ∧ (s.renamePart d).blobs.get d = some content ∧
      (s.renamePart d).parts d = none := by
  have hParts : ∀ e part, (s.renamePart d).parts e = some part → s.parts e = some part := by
    intro e part hFound
    by_cases hSame : e = d
    · subst hSame
      simp [Storage.renamePart, hPart] at hFound
    · simpa [Storage.renamePart, hPart, hSame] using hFound
  have hBlobs : (s.renamePart d).blobs = s.blobs.set d content := by
    simp [Storage.renamePart, hPart]
  obtain ⟨hGood, hShort⟩ := fine_setBlob hOk hNone hSha hBlobs hParts
    (by simp [Storage.renamePart, hPart])
  refine ⟨⟨hGood, hShort, by simp [Storage.renamePart, hPart]⟩, ?_, ?_⟩
  · rw [hBlobs, OrderedMap.get_set_self]
  · simp [Storage.renamePart, hPart]

theorem fine_setArea (attempt : String) (receipt : Option (Metadata Digest)) (hOk : Ok host s)
    (h : ∀ metadata, receipt = some metadata → HonestOffer host metadata.toHostedAppOffer) :
    Fine host s (s.setArea attempt receipt) := by
  refine ⟨⟨⟨hOk.blobs, hOk.parts, fun other metadata hFound => ?_⟩, fun _ _ => id⟩,
    fun _ => id, rfl⟩
  rw [Storage.setArea, OrderedMap.get_set] at hFound
  split at hFound
  · exact h metadata (Option.some.inj hFound)
  · exact hOk.offers other metadata hFound

/-! ## Offers -/

omit [DecidableEq Digest] in
/-- An operation under a condition. -/
theorem holds_when {P : Storage Digest → Prop} {c : Bool}
    {f : Storage Digest → Storage Digest} {Q : Unit → Storage Digest → Prop}
    {E : Storage Digest → Prop} (hYes : c = true → P (f s) ∧ Q () (f s))
    (hNo : c = false → Q () s) : Holds P (when c f) s Q E := by
  unfold when
  cases c with
  | false => exact holds_pure (hNo rfl)
  | true => exact holds_operate (hYes rfl).1 (hYes rfl).2

omit [DecidableEq Digest] in
theorem holds_refuse {P : Storage Digest → Prop} {c : Bool} {message : String}
    {Q : Unit → Storage Digest → Prop} {E : Storage Digest → Prop} (hYes : c = true → E s)
    (hNo : c = false → Q () s) : Holds P (refuse c message : Sec Digest Unit) s Q E := by
  unfold refuse
  cases c with
  | false => exact holds_pure (hNo rfl)
  | true => exact holds_fail (hYes rfl)

/-- A listed content has no `.part` file that is not short. -/
theorem holds_missingContent (hSha : Function.Injective host.sha) (hOk : Ok host s)
    (hFile : Declared host file) :
    Holds (Good host s) (missingContent host file) s
      (fun missing t => Fine host s t ∧ ∀ entry ∈ missing, Short host t entry.sha256)
      (Fine host s) := by
  have hSelf : Fine host s s := .refl hOk
  refine holds_bind (holds_read ?_)
  split
  · exact holds_pure ⟨hSelf, by rintro entry ⟨⟩⟩
  · next hInvalid =>
    have hNone := blob_eq_none hSha hOk hFile hInvalid
    have hRm := fine_rmBlob hOk hNone
    have hNone' : (s.rmBlob file.sha256).blobs.get file.sha256 = none :=
      OrderedMap.get_delete_self
    refine holds_bind (holds_operate hRm.toGood ?_)
    split
    · next hPart =>
      refine holds_pure ⟨hRm, ?_⟩
      rintro entry hEntry part content hFound
      obtain rfl := List.mem_singleton.mp hEntry
      rw [show (s.rmBlob file.sha256).parts = s.parts from rfl, hPart] at hFound
      cases hFound
    · next part hPart =>
      split
      · next hLess =>
        refine holds_pure ⟨hRm, ?_⟩
        rintro entry hEntry part' content hFound hContent
        obtain rfl := List.mem_singleton.mp hEntry
        rw [show (s.rmBlob file.sha256).parts = s.parts from rfl, hPart] at hFound
        cases hFound
        rwa [hFile.size_eq hSha hContent]
      · split
        · next hValid =>
          have hContent := (valid_eq_true.mp hValid).2
          have hMove := hRm.trans (fine_renamePart hRm.ok hNone' hPart hContent).1
          exact holds_bind (holds_operate hMove.toGood
            (holds_pure ⟨hMove, by rintro entry ⟨⟩⟩))
        · have hDrop := hRm.trans (fine_rmPart (d := file.sha256) hRm.ok)
          refine holds_bind (holds_operate hDrop.toGood (holds_pure ⟨hDrop, ?_⟩))
          rintro entry hEntry part' content hFound
          obtain rfl := List.mem_singleton.mp hEntry
          simp [Storage.rmPart] at hFound

theorem holds_missingContents (hSha : Function.Injective host.sha) {files : List (Content Digest)}
    (hFiles : ∀ file ∈ files, Declared host file) (hOk : Ok host s) :
    Holds (Good host s) (missingContents host files) s
      (fun missing t => Fine host s t ∧ ∀ entry ∈ missing, Short host t entry.sha256)
      (Fine host s) := by
  induction files generalizing s with
  | nil => exact holds_pure ⟨.refl hOk, by rintro entry ⟨⟩⟩
  | cons file rest ih =>
      have hHere := holds_missingContent hSha hOk (hFiles file List.mem_cons_self)
      refine holds_bind (hHere.mono (fun here t hHere => ?_) fun _ => id)
      have hRest := ih (fun other hOther => hFiles other (List.mem_cons_of_mem file hOther))
        hHere.1.ok
      refine holds_bind ((hRest.weaken fun u hu => hHere.1.toGood.trans hu).mono
        (fun later u hLater => ?_) fun u hu => hHere.1.trans hu)
      refine holds_pure ⟨hHere.1.trans hLater.1, fun entry hEntry => ?_⟩
      obtain hEntry | hEntry := List.mem_append.mp hEntry
      · exact hLater.1.short _ (hHere.2 entry hEntry)
      · exact hLater.2 entry hEntry

theorem holds_offer (hSha : Function.Injective host.sha) {offer : HostedAppOffer Digest}
    (hOffer : HonestOffer host offer) (hOk : Ok host s) :
    Holds (Good host s) (offerHostedApp host offer) s
      (fun answer t => Fine host s t ∧ ∀ entry ∈ answer.2, Short host t entry.sha256)
      (Fine host s) := by
  have hSelf : Fine host s s := .refl hOk
  refine holds_bind (holds_read (holds_bind (holds_when ?_ fun _ => ?_)))
  · intro hInvalid
    simp only [Bool.and_eq_true, Bool.not_eq_true', Option.isSome_iff_ne_none] at hInvalid
    have hNone := blob_eq_none hSha hOk hOffer.manifest (by simp [hInvalid.2])
    exact absurd hNone hInvalid.1
  · -- the two writes of a new attempt, and then what is missing
    have hListing : ∀ {u}, Fine host s u → Holds (Good host s) (do
        let t ← read
        let stored ← ofExcept (readHostedApp host t offer.attempt)
        refuse (stored.toHostedAppOffer ≠ offer)
          "This app attempt already describes different content."
        let missing ← missingContents host stored.contents
        pure (stored.toMetadata, missing)) u
        (fun answer t => Fine host s t ∧ ∀ entry ∈ answer.2, Short host t entry.sha256)
        (Fine host s) := by
      intro u hu
      refine holds_bind (holds_read (holds_bind (holds_ofExcept ?_ fun _ _ => hu)))
      intro stored hStored
      refine holds_bind (holds_refuse (fun _ => hu) fun _ => holds_bind ?_)
      have hMissing := holds_missingContents hSha
        (hu.ok.honestRecord hStored).declared_contents hu.ok
      exact (hMissing.weaken fun t ht => hu.toGood.trans ht).mono
        (fun missing t hEnd => holds_pure ⟨hu.trans hEnd.1, hEnd.2⟩) fun t ht => hu.trans ht
    have hArea := fine_setArea offer.attempt none hOk (by rintro _ ⟨⟩)
    have hReceipt : ∀ {u}, Fine host s u → Fine host s (u.setArea offer.attempt
        (some { offer with state := .receiving, launched := .no, notice := none })) :=
      fun hu => hu.trans (fine_setArea _ _ hu.ok (by rintro metadata ⟨⟩; exact hOffer))
    refine holds_bind (holds_when (fun _ => ⟨hArea.toGood, ?_⟩) fun _ => ?_)
    · exact holds_bind (holds_when
        (fun _ => ⟨(hReceipt hArea).toGood, hListing (hReceipt hArea)⟩) fun _ => hListing hArea)
    · exact holds_bind (holds_when
        (fun _ => ⟨(hReceipt hSelf).toGood, hListing (hReceipt hSelf)⟩) fun _ => hListing hSelf)

/-! ## Chunks -/

/-- The bytes that are sent are those of the content that the digest names. -/
def Sent (host : Host Digest) (d : Digest) (start : Nat) (data : Bytes) : Prop :=
  ∃ content, host.sha content = d ∧ data <+: content.drop start

/-- An answer of at least the declared size comes with the complete content. -/
def Delivered (host : Host Digest) (file : Content Digest) (offset : Nat)
    (t : Storage Digest) : Prop :=
  file.size ≤ offset → ∃ content, t.blobs.get file.sha256 = some content ∧
    host.sha content = file.sha256 ∧ content.length = file.size

variable {data : Bytes}

/-- Received bytes stay a beginning of the content when the next ones are appended. -/
theorem good_appendPart (hSha : Function.Injective host.sha) (hOk : Ok host s)
    (hSent : Sent host d ((s.parts d).getD []).length data) :
    Good host s (s.appendPart d data) ∧
      ∃ content, host.sha content = d ∧ (s.parts d).getD [] ++ data <+: content := by
  obtain ⟨content, hContent, hData⟩ := hSent
  have hBegins : (s.parts d).getD [] <+: content := by
    cases hPart : s.parts d with
    | none => exact List.nil_prefix
    | some part =>
        obtain ⟨named, hNamed, hPrefix⟩ := hOk.parts d part hPart
        rwa [hSha (hContent.trans hNamed.symm)]
  have hMore : (s.parts d).getD [] ++ data <+: content := by
    obtain ⟨tail, rfl⟩ := hBegins
    rw [List.drop_left] at hData
    exact (List.prefix_append_right_inj _).mpr hData
  refine ⟨⟨⟨hOk.blobs, fun e part hPart => ?_, hOk.offers⟩, fun _ _ => id⟩,
    content, hContent, hMore⟩
  by_cases hSame : e = d
  · subst hSame
    obtain rfl : (s.parts e).getD [] ++ data = part := by
      simpa [Storage.appendPart] using hPart
    exact ⟨content, hContent, hMore⟩
  · exact hOk.parts e part (by simpa [Storage.appendPart, hSame] using hPart)

theorem short_appendPart {e : Digest} (hNe : e ≠ d) (hShort : Short host s e) :
    Short host (s.appendPart d data) e := by
  intro part content hPart hContent
  exact hShort part content (by simpa [Storage.appendPart, hNe] using hPart) hContent

theorem holds_completeContent (record : HostedAppRecord Digest) {part : Bytes} (hOk : Ok host s)
    (hNone : s.blobs.get file.sha256 = none) (hPart : s.parts file.sha256 = some part)
    (hSize : part.length = file.size) (hContent : host.sha part = file.sha256) :
    Holds (Good host s) (completeContent host record file) s
      (fun offset t => Good host s t ∧ (∀ e, e ≠ file.sha256 → Short host s e → Short host t e) ∧
        Short host t file.sha256 ∧ t.temps = s.temps ∧ Delivered host file offset t)
      (fun t => Good host s t ∧ (∀ e, e ≠ file.sha256 → Short host s e → Short host t e) ∧
        Short host t file.sha256 ∧ t.temps = s.temps) := by
  obtain ⟨hMove, hBlob, hGone⟩ := fine_renamePart hOk hNone hPart hContent
  have hValid : validHostedAppBlob host (s.parts file.sha256) file = true := by
    rw [hPart]
    exact valid_eq_true.mpr ⟨hSize, hContent⟩
  have hShort : Short host (s.renamePart file.sha256) file.sha256 := by
    intro found content hFound
    rw [hGone] at hFound
    cases hFound
  have hDone : Delivered host file file.size (s.renamePart file.sha256) :=
    fun _ => ⟨part, hBlob, hContent, hSize⟩
  refine holds_bind (holds_read ?_)
  rw [hValid]
  refine holds_bind (holds_operate hMove.toGood (holds_bind (holds_read ?_)))
  split
  · split
    · exact holds_pure ⟨hMove.toGood, fun e _ => hMove.short e, hShort, hMove.temps, hDone⟩
    · -- a manifest that is malformed is taken away again
      have hBack : Good host s ((s.renamePart file.sha256).rmBlob file.sha256) := by
        refine ⟨⟨fun e content hFound => ?_, hMove.ok.parts, hMove.ok.offers⟩,
          fun e content hFound => ?_⟩
        · by_cases hSame : e = file.sha256
          · subst hSame
            exact absurd hFound (by simp [Storage.rmBlob, OrderedMap.get_delete_self])
          · exact hMove.ok.blobs e content
              (by rwa [Storage.rmBlob, OrderedMap.get_delete_of_ne hSame] at hFound)
        · have hNe : e ≠ file.sha256 := by
            rintro rfl
            simp [hNone] at hFound
          rw [Storage.rmBlob, OrderedMap.get_delete_of_ne hNe]
          exact hMove.keeps e content hFound
      exact holds_bind (holds_operate hBack
        (holds_fail ⟨hBack, fun e _ hBefore => hMove.short e hBefore, hShort, hMove.temps⟩))
  · exact holds_pure ⟨hMove.toGood, fun e _ => hMove.short e, hShort, hMove.temps, hDone⟩

theorem holds_receiveChunk (record : HostedAppRecord Digest) (hSha : Function.Injective host.sha)
    {start : Nat} (hOk : Ok host s) (hFile : Declared host file)
    (hNone : s.blobs.get file.sha256 = none) (hSent : Sent host file.sha256 start data)
    (hSize : start + data.length ≤ file.size) :
    Holds (Good host s) (receiveChunk host record file start data) s
      (fun offset t => Fine host s t ∧ (Short host s file.sha256 → Delivered host file offset t))
      (Fine host s) := by
  have hSelf : Fine host s s := .refl hOk
  refine holds_bind (holds_read ?_)
  dsimp only
  split
  · next hOther =>
    split
    · exact holds_fail hSelf
    · next hWithin =>
      split
      · exact holds_fail hSelf
      · refine holds_pure ⟨hSelf, fun hShort hAnswer => ?_⟩
        -- a replay ends in what is there, which is short
        obtain ⟨content, hContent, hLength⟩ := hFile
        cases hPart : s.parts file.sha256 with
        | none =>
            simp only [hPart, Option.getD_none, List.length_nil] at hOther hWithin
            omega
        | some part =>
            have hLess := hShort part content hPart hContent
            simp only [hPart, Option.getD_some] at hAnswer
            omega
  · next hHere =>
    obtain rfl : start = ((s.parts file.sha256).getD []).length := not_not.mp hHere
    obtain ⟨hAppend, content, hContent, hPrefix⟩ := good_appendPart hSha hOk hSent
    have hLength : content.length = file.size := hFile.size_eq hSha hContent
    have hNow : (s.appendPart file.sha256 data).parts file.sha256 =
        some ((s.parts file.sha256).getD [] ++ data) := by
      simp [Storage.appendPart]
    refine holds_bind (holds_operate hAppend ?_)
    split
    · next hLeft =>
      refine holds_pure ⟨⟨hAppend, fun e hBefore => ?_, rfl⟩, fun _ hAnswer => ?_⟩
      · by_cases hSame : e = file.sha256
        · subst hSame
          intro part named hPart hNamed
          rw [hNow] at hPart
          cases hPart
          rw [hSha (hNamed.trans hContent.symm), List.length_append]
          omega
        · exact short_appendPart hSame hBefore
      · omega
    · next hFull =>
      have hAll : (s.parts file.sha256).getD [] ++ data = content := by
        refine hPrefix.eq_of_length ?_
        rw [List.length_append]
        omega
      rw [hAll] at hNow
      have hShortOf : ∀ {t}, (∀ e, e ≠ file.sha256 →
          Short host (s.appendPart file.sha256 data) e → Short host t e) →
          Short host t file.sha256 → ∀ e, Short host s e → Short host t e := by
        intro t hOthers hThis e hBefore
        by_cases hSame : e = file.sha256
        · rwa [hSame]
        · exact hOthers e hSame (short_appendPart hSame hBefore)
      have hRest := holds_completeContent record hAppend.ok hNone hNow hLength
        hContent
      refine (hRest.weaken fun t ht => hAppend.trans ht).mono ?_ ?_
      · rintro offset t ⟨hGood, hOthers, hThis, hTemps, hDone⟩
        exact ⟨⟨hAppend.trans hGood, hShortOf hOthers hThis, hTemps⟩, fun _ => hDone⟩
      · rintro t ⟨hGood, hOthers, hThis, hTemps⟩
        exact ⟨hAppend.trans hGood, hShortOf hOthers hThis, hTemps⟩

theorem holds_chunk (hSha : Function.Injective host.sha) {start : Nat} (hOk : Ok host s)
    (hRecord : HonestRecord host record) (hSent : Sent host d start data) :
    Holds (Good host s) (chunkHostedApp host record d start data) s
      (fun offset t => Fine host s t ∧ ∀ file, record.content d = some file → Short host s d →
        Delivered host file offset t)
      (Fine host s) := by
  have hSelf : Fine host s s := .refl hOk
  unfold chunkHostedApp
  split
  · exact holds_fail hSelf
  · next file hContent =>
    obtain ⟨rfl, hFile⟩ := hRecord.declared hContent
    split
    · exact holds_fail hSelf
    · next hBounds =>
      have hSize : start + data.length ≤ file.size :=
        Nat.not_lt.mp fun hOver => hBounds (.inr (.inl hOver))
      refine holds_bind (holds_read ?_)
      split
      · next hValid =>
        refine holds_pure ⟨hSelf, fun other hOther _ _ => ?_⟩
        obtain rfl : file = other := Option.some.inj (hContent.symm.trans hOther)
        obtain ⟨content, hBlob⟩ := blob_of_valid hValid
        rw [hBlob] at hValid
        obtain ⟨hLength, hNamed⟩ := valid_eq_true.mp hValid
        exact ⟨content, hBlob, hNamed, hLength⟩
      · next hInvalid =>
        have hNone := blob_eq_none hSha hOk hFile hInvalid
        have hRm := fine_rmBlob hOk hNone
        have hNone' : (s.rmBlob file.sha256).blobs.get file.sha256 = none :=
          OrderedMap.get_delete_self
        refine holds_bind (holds_operate hRm.toGood (holds_bind (holds_ofExcept ?_ fun _ _ => hRm)))
        intro metadata _
        refine holds_bind (holds_refuse (fun _ => hRm) fun _ => ?_)
        have hRest := holds_receiveChunk record hSha hRm.ok hFile hNone' hSent hSize
        refine (hRest.weaken fun t ht => hRm.toGood.trans ht).mono (fun offset t hEnd => ?_)
          fun t ht => hRm.trans ht
        refine ⟨hRm.trans hEnd.1, fun other hOther hShort => ?_⟩
        obtain rfl : file = other := Option.some.inj (hContent.symm.trans hOther)
        exact hEnd.2 (hRm.short _ hShort)

/-! ## Hand-overs, receipts and prunes -/

/-- A checked copy is placed.  Only its own temporary file goes. -/
theorem holds_place (record : HostedAppRecord Digest) (hSha : Function.Injective host.sha)
    {id : Nat} {copy : Bytes} (hOk : Ok host s) (hFile : Declared host file)
    (hTemp : s.temps id = some copy) (hCopy : host.sha copy = file.sha256) :
    Holds (Good host s) (placeHandOver host record id file) s
      (fun _ t => Good host s t ∧ (∀ e, Short host s e → Short host t e) ∧
        ∀ other, other ≠ id → t.temps other = s.temps other)
      (fun t => Good host s t ∧ (∀ e, Short host s e → Short host t e) ∧
        ∀ other, other ≠ id → t.temps other = s.temps other) := by
  have hSelf : Good host s s := (Fine.refl hOk).toGood
  refine holds_bind (holds_read ?_)
  split
  · exact holds_pure ⟨hSelf, fun _ h => h, fun _ _ => rfl⟩
  · next hInvalid =>
    have hNone := blob_eq_none hSha hOk hFile hInvalid
    refine holds_bind (holds_ofExcept (fun metadata _ => ?_)
      fun _ _ => ⟨hSelf, fun _ h => h, fun _ _ => rfl⟩)
    refine holds_bind (holds_refuse (fun _ => ⟨hSelf, fun _ h => h, fun _ _ => rfl⟩) fun _ => ?_)
    have hMove : s.renameTemp id file.sha256 = { s with
        temps := Function.update s.temps id none
        blobs := s.blobs.set file.sha256 copy } := by
      simp [Storage.renameTemp, hTemp]
    obtain ⟨hGood, hShort⟩ := fine_setBlob (t := s.renameTemp id file.sha256) hOk hNone hCopy
      (by rw [hMove]) (by simp [hMove]) (by rw [hMove])
    refine holds_bind (holds_operate hGood (holds_pure ⟨hGood, hShort, fun other hOther => ?_⟩))
    rw [hMove]
    exact Function.update_of_ne hOther ..

theorem holds_change {update : HostedAppRecord Digest → AppState × Launched × Option String}
    (hOk : Ok host s) :
    Holds (Good host s) (changeHostedApp host attempt update) s (fun _ => Fine host s)
      (Fine host s) := by
  have hSelf : Fine host s s := .refl hOk
  refine holds_bind (holds_read (holds_bind (holds_ofExcept (fun record hRecord => ?_)
    fun _ _ => hSelf)))
  obtain ⟨hFound, -⟩ := readHostedApp_ok hRecord
  have hArea := fine_setArea attempt (some { record with
      state := (update record).1, launched := (update record).2.1, notice := (update record).2.2 })
    hOk (by rintro metadata ⟨⟩; exact hOk.offers attempt record.toMetadata hFound)
  exact holds_operate hArea.toGood hArea

/-- Content that the current attempt lists, or an attempt that is not installed. -/
def Needed (host : Host Digest) (s : Storage Digest) (current : String) (d : Digest) : Prop :=
  ∃ attempt metadata, s.apps.get attempt = some (some metadata) ∧
    (attempt = current ∨ metadata.state ≠ .installed) ∧
    (d = metadata.manifest.sha256 ∨ ∃ content files,
      s.blobs.get metadata.manifest.sha256 = some content ∧
      host.manifestFiles content = some files ∧ d ∈ files.map (·.sha256))

/-- What a prune may have done: taken away attempts and content that nothing needs. -/
structure Pruned (host : Host Digest) (unused : List Digest) (s t : Storage Digest) : Prop where
  ok : Ok host t
  keeps : ∀ d, d ∉ unused → t.blobs.get d = s.blobs.get d
  parts : t.parts = s.parts
  temps : t.temps = s.temps

variable {unused : List Digest}

theorem Pruned.trans (h : Pruned host unused s t) (h' : Pruned host unused t u) :
    Pruned host unused s u :=
  ⟨h'.ok, fun d hd => (h'.keeps d hd).trans (h.keeps d hd), h'.parts.trans h.parts,
    h'.temps.trans h.temps⟩

theorem Pruned.refl (hOk : Ok host s) : Pruned host unused s s :=
  ⟨hOk, fun _ _ => rfl, rfl, rfl⟩

variable {attempts : List String}

theorem holds_rmAreas (hOk : Ok host s) :
    Holds (Pruned host unused s) (rmAreas attempts) s (fun _ => Pruned host unused s)
      (Pruned host unused s) := by
  induction attempts generalizing s with
  | nil => exact holds_pure (.refl hOk)
  | cons attempt rest ih =>
      have hReceipt : Pruned host unused s (s.setArea attempt none) :=
        ⟨(fine_setArea _ _ hOk (by rintro _ ⟨⟩)).ok, fun _ _ => rfl, rfl, rfl⟩
      have hArea : Pruned host unused s ((s.setArea attempt none).rmArea attempt) := by
        refine ⟨⟨hOk.blobs, hOk.parts, fun other metadata hFound => ?_⟩, fun _ _ => rfl, rfl, rfl⟩
        by_cases hSame : other = attempt
        · subst hSame
          exact absurd hFound (by simp [Storage.rmArea, OrderedMap.get_delete_self])
        · rw [Storage.rmArea, OrderedMap.get_delete_of_ne hSame] at hFound
          exact hReceipt.ok.offers other metadata hFound
      exact holds_bind (holds_operate hReceipt (holds_bind (holds_operate hArea
        (((ih hArea.ok).weaken fun t ht => hArea.trans ht).mono (fun _ t ht => hArea.trans ht)
          fun t ht => hArea.trans ht))))

theorem holds_rmBlobs (unused : List Digest) {entries : List Digest} (hOk : Ok host s)
    (hEntries : ∀ d ∈ entries, d ∈ unused) :
    Holds (Pruned host unused s) (rmBlobs entries) s (fun _ => Pruned host unused s)
      (Pruned host unused s) := by
  induction entries generalizing s with
  | nil => exact holds_pure (.refl hOk)
  | cons d rest ih =>
      have hBlob : Pruned host unused s (s.rmBlob d) := by
        refine ⟨⟨fun e content hFound => ?_, hOk.parts, hOk.offers⟩, fun e he => ?_, rfl, rfl⟩
        · by_cases hSame : e = d
          · subst hSame
            exact absurd hFound (by simp [Storage.rmBlob, OrderedMap.get_delete_self])
          · rw [Storage.rmBlob, OrderedMap.get_delete_of_ne hSame] at hFound
            exact hOk.blobs e content hFound
        · have hNe : e ≠ d := by
            rintro rfl
            exact he (hEntries e List.mem_cons_self)
          exact OrderedMap.get_delete_of_ne hNe
      have hRest := ih hBlob.ok fun e he => hEntries e (List.mem_cons_of_mem d he)
      exact holds_bind (holds_operate hBlob ((hRest.weaken fun t ht => hBlob.trans ht).mono
        (fun _ t ht => hBlob.trans ht) fun t ht => hBlob.trans ht))

theorem mapM_ok {α β : Type} {f : α → Except String β} {xs : List α} {ys : List β}
    (h : xs.mapM f = .ok ys) : ∀ x ∈ xs, ∃ y ∈ ys, f x = .ok y := by
  induction xs generalizing ys with
  | nil => rintro x ⟨⟩
  | cons head rest ih =>
      rw [List.mapM_cons] at h
      cases hHead : f head with
      | error e =>
          rw [hHead] at h
          cases h
      | ok y =>
          cases hRest : rest.mapM f with
          | error e =>
              rw [hHead, hRest] at h
              cases h
          | ok later =>
              rw [hHead, hRest] at h
              cases h
              rintro x hx
              obtain rfl | hx := List.mem_cons.mp hx
              · exact ⟨y, List.mem_cons_self, hHead⟩
              · obtain ⟨z, hz, hOk⟩ := ih hRest x hx
                exact ⟨z, List.mem_cons_of_mem y hz, hOk⟩

/-- What a prune leaves, read of what it was called with. -/
structure Spared (host : Host Digest) (current : String) (s t : Storage Digest) : Prop where
  ok : Ok host t
  keeps : ∀ d, Needed host s current d → t.blobs.get d = s.blobs.get d
  parts : t.parts = s.parts
  temps : t.temps = s.temps

/-- What is needed is referenced by an attempt that is kept. -/
theorem needed_referenced {current : String} {records : List (HostedAppRecord Digest)}
    (hAttempts : attempts.Perm s.apps.keys)
    (hRecords : attempts.mapM (readHostedApp host s) = .ok records)
    (hNeeded : Needed host s current d) :
    ∃ record ∈ records, (record.attempt = current ∨ record.state ≠ .installed) ∧
      (record.files ≠ [] → d ∈ record.digests) := by
  obtain ⟨attempt, metadata, hFound, hKept, hListed⟩ := hNeeded
  have hKey : attempt ∈ attempts :=
    hAttempts.mem_iff.mpr (OrderedMap.get_isSome_iff.mp (by rw [hFound]; rfl))
  obtain ⟨record, hRecord, hRead⟩ := mapM_ok hRecords attempt hKey
  obtain ⟨hFound', hAttempt, hFiles, -⟩ := readHostedApp_ok hRead
  obtain rfl : record.toMetadata = metadata := by simpa [hFound'] using hFound
  refine ⟨record, hRecord, by rwa [hAttempt], fun hSome => ?_⟩
  obtain rfl | ⟨content, files, hBlob, hParsed, hMem⟩ := hListed
  · exact List.mem_cons_self
  · obtain ⟨content', hBlob', hParsed'⟩ := hFiles hSome
    obtain rfl : content = content' := by simpa [hBlob] using hBlob'
    obtain rfl : files = record.files := by simpa [hParsed] using hParsed'
    exact List.mem_cons_of_mem _ hMem

theorem holds_prune {current : String} {entries : List Digest} (hOk : Ok host s)
    (hAttempts : attempts.Perm s.apps.keys) :
    Holds (Spared host current s) (pruneHostedApps host current attempts entries) s
      (fun _ => Spared host current s) (Spared host current s) := by
  have hSelf : Spared host current s s := ⟨hOk, fun _ _ => rfl, rfl, rfl⟩
  refine holds_bind (holds_read (holds_bind (holds_ofExcept (fun records hRecords => ?_)
    fun _ _ => hSelf)))
  refine holds_bind (holds_refuse (fun _ => hSelf) fun _ => ?_)
  dsimp only
  generalize hUnused : unusedBlobs _ entries = unused
  have hNot : ∀ d, Needed host s current d → d ∉ unused := by
    intro d hNeeded hMem
    obtain ⟨record, hRecord, hKept, hListed⟩ := needed_referenced hAttempts hRecords hNeeded
    rw [← hUnused, unusedBlobs] at hMem
    split at hMem
    · next hFiles =>
      have hIn : record ∈ records.filter
          fun record => record.attempt = current || record.state ≠ .installed :=
        List.mem_filter.mpr ⟨hRecord, by simpa using hKept⟩
      have hSome := List.all_eq_true.mp hFiles record hIn
      have hOut := (List.mem_filter.mp hMem).2
      simp only [decide_eq_true_eq] at hSome hOut
      exact hOut (List.mem_flatMap.mpr ⟨record, hIn, hListed hSome⟩)
    · cases hMem
  have hSpared : ∀ t, Pruned host unused s t → Spared host current s t := fun t ht =>
    ⟨ht.ok, fun d hNeeded => ht.keeps d (hNot d hNeeded), ht.parts, ht.temps⟩
  refine holds_bind (((holds_rmAreas hOk).weaken hSpared).mono (fun _ t ht => ?_) hSpared)
  have hBlobs := holds_rmBlobs unused ht.ok fun d hd => hd
  exact (hBlobs.weaken fun u hu => hSpared u (ht.trans hu)).mono
    (fun _ u hu => hSpared u (ht.trans hu)) fun u hu => hSpared u (ht.trans hu)

end Stim.HostedApp
