import Stim.Server.HostedApp.Whole

/-!
# Runs of the server

The sections of `Whole`, one after another, whole or cut, with the listings of the connections
and the copies of the hand-overs between them.
-/

namespace Stim.HostedApp

open CutSection CutSection.Section

variable {Digest : Type} [DecidableEq Digest] {host : Host Digest}
variable {s t : State Digest} {a : Action Digest} {actions : List (Action Digest)}

/-- Offers and records declare true sizes.  A connection sends true bytes of what its last offer
of the attempt listed. -/
def Honest (host : Host Digest) (s : State Digest) : Action Digest → Prop
  | .offer _ offer _ => HonestOffer host offer
  | .chunk conn record d start data _ =>
      HonestRecord host record ∧ d ∈ s.listed conn record.attempt ∧ Sent host d start data
  | .handOver _ record _ _ => HonestRecord host record
  | _ => True

/-- What a hand-over has yet to place is declared truly, and what it has checked is there. -/
def HandOk (host : Host Digest) (temp : Option Bytes) (hand : Hand Digest) : Prop :=
  (∀ file ∈ hand.rest, Declared host file.toContent) ∧
    match hand.phase with
    | .next => True
    | .copied file => Declared host file.toContent
    | .checked file => Declared host file.toContent ∧
        ∃ copy, temp = some copy ∧ host.sha copy = file.sha256

structure Inv (host : Host Digest) (s : State Digest) : Prop where
  ok : Ok host s.storage
  listed : ∀ conn attempt d, d ∈ s.listed conn attempt → Short host s.storage d
  hands : ∀ id hand, s.hands id = some hand → HandOk host (s.storage.temps id) hand

theorem inv_start : Inv host (start : State Digest) where
  ok := by
    refine ⟨fun d content h => ?_, fun d part h => ?_, fun attempt metadata h => ?_⟩
    · cases h
    · cases h
    · cases h
  listed := by rintro conn attempt d ⟨⟩
  hands := by rintro id hand ⟨⟩

/-- A server that died has neither connections nor hand-overs. -/
theorem inv_died {storage : Storage Digest} (hOk : Ok host storage) :
    Inv host (.died storage) where
  ok := hOk
  listed := by rintro conn attempt d ⟨⟩
  hands := by rintro id hand ⟨⟩

/-- What a whole section has to leave for the connections and the hand-overs. -/
structure Calm (host : Host Digest) (s t : Storage Digest) : Prop where
  ok : Ok host t
  short : ∀ d, Short host s d → Short host t d
  temps : t.temps = s.temps

theorem Fine.calm {s t : Storage Digest} (h : Fine host s t) : Calm host s t :=
  ⟨h.ok, h.short, h.temps⟩

theorem Spared.calm {current : String} {s t : Storage Digest} (h : Spared host current s t) :
    Calm host s t := by
  refine ⟨h.ok, fun d hShort part content hPart => ?_, h.temps⟩
  rw [h.parts] at hPart
  exact hShort part content hPart

theorem Inv.calm {storage : Storage Digest} (h : Inv host s) (hCalm : Calm host s.storage storage) :
    Inv host { s with storage := storage } where
  ok := hCalm.ok
  listed conn attempt d hListed := hCalm.short d (h.listed conn attempt d hListed)
  hands id hand hHand := by
    show HandOk host (storage.temps id) hand
    rw [hCalm.temps]
    exact h.hands id hand hHand

/-- A section that only changes the storage. -/
theorem Inv.runSection {α : Type} {m : Sec Digest α} {cut : Option Nat}
    {P : Storage Digest → Prop} {Q : α → Storage Digest → Prop} {E : Storage Digest → Prop}
    (h : Inv host s) (hSection : Holds P m s.storage Q E) (hStart : P s.storage)
    (hP : ∀ t, P t → Ok host t) (hQ : ∀ a t, Q a t → Calm host s.storage t)
    (hE : ∀ t, E t → Calm host s.storage t) :
    Inv host (s.runSection m cut fun _ t => t) := by
  cases cut with
  | some operations => exact inv_died (hP _ (hSection.cut hStart operations))
  | none => exact h.calm (hSection.after hQ hE)

theorem Inv.setHand {id : Nat} {hand : Hand Digest} (h : Inv host s)
    (hHand : HandOk host (s.storage.temps id) hand) : Inv host (s.setHand id (some hand)) := by
  refine ⟨h.ok, h.listed, fun other found hFound => ?_⟩
  by_cases hOther : other = id
  · subst hOther
    obtain rfl : hand = found := by simpa [State.setHand] using hFound
    exact hHand
  · exact h.hands other found (by simpa [State.setHand, hOther] using hFound)

/-- A hand-over is given another temporary file, or none. -/
theorem Inv.setTemp {id : Nat} (temp : Option Bytes) {hand : Option (Hand Digest)}
    (h : Inv host s) (hHand : ∀ found, hand = some found → HandOk host temp found) :
    Inv host { (s.setHand id hand) with
      storage := { s.storage with temps := Function.update s.storage.temps id temp } } := by
  refine ⟨⟨h.ok.blobs, h.ok.parts, h.ok.offers⟩, h.listed, fun other found hFound => ?_⟩
  by_cases hOther : other = id
  · subst hOther
    have hNow : hand = some found := by simpa [State.setHand] using hFound
    show HandOk host (Function.update s.storage.temps other temp other) found
    rw [Function.update_self]
    exact hHand found hNow
  · show HandOk host (Function.update s.storage.temps id temp other) found
    rw [Function.update_of_ne hOther]
    exact h.hands other found (by simpa [State.setHand, hOther] using hFound)

/-- What an offer lists to its connection is short. -/
theorem inv_offer (hSha : Function.Injective host.sha) {conn : Nat}
    {offer : HostedAppOffer Digest} {cut : Option Nat} (h : Inv host s)
    (hOffer : HonestOffer host offer) (hStep : step host s (.offer conn offer cut) = some t) :
    Inv host t := by
  have hSection := holds_offer hSha hOffer h.ok
  cases cut with
  | some operations =>
      cases hStep
      exact inv_died (hSection.cut (Fine.refl h.ok).toGood operations).ok
  | none =>
      have hCalm : Calm host s.storage ((offerHostedApp host offer).after s.storage) :=
        hSection.after (fun _ _ hEnd => hEnd.1.calm) fun _ hEnd => hEnd.calm
      have hSame := h.calm hCalm
      simp only [step, State.runSection, Option.some.injEq] at hStep
      cases hAnswer : (offerHostedApp host offer).answer s.storage with
      | error e =>
          rw [hAnswer] at hStep
          cases hStep
          exact hSame
      | ok answer =>
          rw [hAnswer] at hStep
          cases hStep
          refine ⟨hSame.ok, fun other attempt d hListed => ?_, hSame.hands⟩
          have hMissing := (hSection.answered hAnswer).2
          dsimp only at hListed
          by_cases hConn : other = conn
          · subst hConn
            rw [Function.update_self] at hListed
            by_cases hAttempt : attempt = offer.attempt
            · subst hAttempt
              rw [Function.update_self] at hListed
              obtain ⟨entry, hEntry, rfl⟩ := List.mem_map.mp hListed
              exact hMissing entry hEntry
            · rw [Function.update_of_ne hAttempt] at hListed
              exact hSame.listed other attempt d hListed
          · rw [Function.update_of_ne hConn] at hListed
            exact hSame.listed other attempt d hListed

theorem inv_copy {id : Nat} {found : Option Found} {copy : Bytes} (h : Inv host s)
    (hStep : step host s (.copy id found copy) = some t) : Inv host t := by
  simp only [step] at hStep
  split at hStep
  · next record file rest files bytes hHand =>
    have hOk := h.hands id _ hHand
    have hDone : HandOk host (s.storage.temps id) ⟨record, rest, .next, files, bytes⟩ :=
      ⟨fun other hOther => hOk.1 other (List.mem_cons_of_mem file hOther), trivial⟩
    split at hStep
    · cases hStep
      exact h.setHand hDone
    · split at hStep
      · cases hStep
        exact h.setHand hDone
      · split at hStep
        · cases hStep
          exact h.setTemp (some copy) fun hand hSome => by
            cases hSome
            exact ⟨hDone.1, hOk.1 file List.mem_cons_self⟩
        · cases hStep
          exact h.setHand hDone
  · cases hStep
    refine ⟨h.ok, h.listed, fun other hand hHand => ?_⟩
    by_cases hOther : other = id
    · subst hOther
      simp [State.setHand] at hHand
    · exact h.hands other hand (by simpa [State.setHand, hOther] using hHand)
  · cases hStep

theorem inv_check {id : Nat} (h : Inv host s) (hStep : step host s (.check id) = some t) :
    Inv host t := by
  simp only [step] at hStep
  split at hStep
  · next record rest file files bytes hHand =>
    have hOk := h.hands id _ hHand
    split at hStep
    · next hValid =>
      cases hStep
      refine h.setHand ⟨hOk.1, hOk.2, ?_⟩
      cases hTemp : s.storage.temps id with
      | none => simp [hTemp, validHostedAppBlob] at hValid
      | some copy =>
          rw [hTemp] at hValid
          exact ⟨copy, rfl, (valid_eq_true.mp hValid).2⟩
    · cases hStep
      exact h.setTemp none fun hand hSome => by
        cases hSome
        exact ⟨hOk.1, trivial⟩
  · cases hStep

theorem inv_place (hSha : Function.Injective host.sha) {id : Nat} {cut : Option Nat}
    (h : Inv host s) (hStep : step host s (.place id cut) = some t) : Inv host t := by
  simp only [step] at hStep
  split at hStep
  · next record rest file files bytes hHand =>
    obtain ⟨hRest, hFile, copy, hTemp, hCopy⟩ := h.hands id _ hHand
    have hSection := holds_place record hSha h.ok hFile hTemp hCopy
    cases cut with
    | some operations =>
        cases hStep
        exact inv_died (hSection.cut (Fine.refl h.ok).toGood operations).ok
    | none =>
        obtain ⟨hGood, hShort, hTemps⟩ :=
          hSection.after (fun _ _ hEnd => hEnd) fun _ hEnd => hEnd
        have hNext : ∀ hand : Option (Hand Digest),
            (∀ found, hand = some found → found.rest = rest ∧ found.phase = .next) →
            Inv host ((State.rmTemp { s with storage :=
              (placeHandOver host record id file.toContent).after s.storage } id).setHand
                id hand) := by
          intro hand hFound
          refine ⟨⟨hGood.ok.blobs, hGood.ok.parts, hGood.ok.offers⟩,
            fun conn attempt d hListed => hShort d (h.listed conn attempt d hListed),
            fun other found hOther => ?_⟩
          by_cases hSame : other = id
          · subst hSame
            obtain ⟨hRest', hPhase⟩ :=
              hFound found (by simpa [State.setHand] using hOther)
            refine ⟨by rwa [hRest'], ?_⟩
            rw [hPhase]
            trivial
          · have hBefore := h.hands other found
              (by simpa [State.setHand, State.rmTemp, hSame] using hOther)
            show HandOk host (Function.update ((placeHandOver host record id file.toContent).after
              s.storage).temps id (none : Option Bytes) other) found
            rw [Function.update_of_ne hSame, hTemps other hSame]
            exact hBefore
        simp only [State.runSection, Option.some.injEq] at hStep
        split at hStep
        · cases hStep
          exact hNext _ (by rintro found ⟨⟩; exact ⟨rfl, rfl⟩)
        · cases hStep
          exact hNext _ (by rintro found ⟨⟩; exact ⟨rfl, rfl⟩)
        · cases hStep
          exact hNext _ (by rintro found ⟨⟩)
  · cases hStep

theorem step_inv (hSha : Function.Injective host.sha) (s : State Digest) (a : Action Digest)
    (t : State Digest) (h : Inv host s) (hHonest : Honest host s a)
    (hStep : step host s a = some t) : Inv host t := by
  have hSelf := Fine.refl h.ok
  cases a with
  | offer conn offer cut => exact inv_offer hSha h hHonest hStep
  | chunk conn record d start data cut =>
      cases hStep
      exact h.runSection (holds_chunk hSha h.ok hHonest.1 hHonest.2.2) hSelf.toGood
        (fun _ ht => ht.ok) (fun _ _ ht => ht.1.calm) fun _ ht => ht.calm
  | change attempt update cut =>
      cases hStep
      exact h.runSection (holds_change h.ok) hSelf.toGood
        (fun _ ht => ht.ok) (fun _ _ ht => ht.calm) fun _ ht => ht.calm
  | prune current attempts entries cut =>
      simp only [step] at hStep
      split at hStep
      · next hKeys =>
        cases hStep
        exact h.runSection (holds_prune h.ok hKeys.1) ⟨h.ok, fun _ _ => rfl, rfl, rfl⟩
          (fun _ ht => ht.ok) (fun _ _ ht => ht.calm) fun _ ht => ht.calm
      · cases hStep
  | handOver id record android apk =>
      simp only [step] at hStep
      split at hStep
      · split at hStep
        · next hand hStart =>
          cases hStep
          refine h.setHand ?_
          unfold handOverHostedApp at hStart
          split at hStart
          · cases hStart
          · split at hStart
            · cases hStart
            · cases hStart
              exact ⟨hHonest.files, trivial⟩
        · cases hStep
          exact h
      · cases hStep
  | copy id found copy => exact inv_copy h hStep
  | check id => exact inv_check h hStep
  | place id cut => exact inv_place hSha h hStep
  | die =>
      cases hStep
      exact inv_died h.ok

/-! ## What is never removed -/

/-- What a section keeps wherever it is cut, it keeps. -/
theorem runSection_keeps {α : Type} {m : Sec Digest α} {cut : Option Nat}
    {next : Except String α → State Digest → State Digest} {P E : Storage Digest → Prop}
    {Q : α → Storage Digest → Prop} {d : Digest} {content : Bytes}
    (hSection : Holds P m s.storage Q E) (hStart : P s.storage)
    (hP : ∀ t, P t → t.blobs.get d = some content)
    (hQ : ∀ a t, Q a t → t.blobs.get d = some content)
    (hE : ∀ t, E t → t.blobs.get d = some content)
    (hNext : ∀ answer t, (next answer t).storage.blobs = t.storage.blobs) :
    (s.runSection m cut next).storage.blobs.get d = some content := by
  cases cut with
  | some operations => exact hP _ (hSection.cut hStart operations)
  | none =>
      show (next _ _).storage.blobs.get d = some content
      rw [hNext]
      exact hSection.after hQ hE

/-- Complete content stays, unless a prune finds that nothing needs it. -/
theorem step_keeps (hSha : Function.Injective host.sha) {d : Digest} {content : Bytes}
    (h : Inv host s) (hHonest : Honest host s a) (hStep : step host s a = some t)
    (hBlob : s.storage.blobs.get d = some content)
    (hNeeded : ∀ current attempts entries cut, a = .prune current attempts entries cut →
      Needed host s.storage current d) :
    t.storage.blobs.get d = some content := by
  have hSelf := Fine.refl h.ok
  cases a with
  | offer conn offer cut =>
      cases hStep
      exact runSection_keeps (holds_offer hSha hHonest h.ok) hSelf.toGood
        (fun _ ht => ht.keeps d content hBlob) (fun _ _ ht => ht.1.keeps d content hBlob)
        (fun _ ht => ht.keeps d content hBlob) (fun answer t => by cases answer <;> rfl)
  | chunk conn record e start data cut =>
      cases hStep
      exact runSection_keeps (holds_chunk hSha h.ok hHonest.1 hHonest.2.2) hSelf.toGood
        (fun _ ht => ht.keeps d content hBlob) (fun _ _ ht => ht.1.keeps d content hBlob)
        (fun _ ht => ht.keeps d content hBlob) fun _ _ => rfl
  | change attempt update cut =>
      cases hStep
      exact runSection_keeps (holds_change h.ok) hSelf.toGood
        (fun _ ht => ht.keeps d content hBlob) (fun _ _ ht => ht.keeps d content hBlob)
        (fun _ ht => ht.keeps d content hBlob) fun _ _ => rfl
  | prune current attempts entries cut =>
      have hd := hNeeded current attempts entries cut rfl
      simp only [step] at hStep
      split at hStep
      · next hKeys =>
        cases hStep
        have hSpared : ∀ t, Spared host current s.storage t → t.blobs.get d = some content :=
          fun t ht => (ht.keeps d hd).trans hBlob
        exact runSection_keeps (holds_prune h.ok hKeys.1) ⟨h.ok, fun _ _ => rfl, rfl, rfl⟩
          hSpared (fun _ => hSpared) hSpared fun _ _ => rfl
      · cases hStep
  | handOver id record android apk =>
      simp only [step] at hStep
      split at hStep
      · split at hStep
        · cases hStep
          exact hBlob
        · cases hStep
          exact hBlob
      · cases hStep
  | copy id found copy =>
      simp only [step] at hStep
      split at hStep
      · split at hStep
        · cases hStep
          exact hBlob
        · split at hStep
          · cases hStep
            exact hBlob
          · split at hStep
            · cases hStep
              exact hBlob
            · cases hStep
              exact hBlob
      · cases hStep
        exact hBlob
      · cases hStep
  | check id =>
      simp only [step] at hStep
      split at hStep
      · split at hStep
        · cases hStep
          exact hBlob
        · cases hStep
          exact hBlob
      · cases hStep
  | place id cut =>
      simp only [step] at hStep
      split at hStep
      · next record rest file files bytes hHand =>
        obtain ⟨-, hFile, copy, hTemp, hCopy⟩ := h.hands id _ hHand
        cases hStep
        refine runSection_keeps (holds_place record hSha h.ok hFile hTemp hCopy)
          hSelf.toGood (fun _ ht => ht.keeps d content hBlob)
          (fun _ _ ht => ht.1.keeps d content hBlob) (fun _ ht => ht.1.keeps d content hBlob)
          fun answer t => ?_
        split <;> rfl
      · cases hStep
  | die =>
      cases hStep
      exact hBlob

/-! ## Content is delivered whole -/

/-- Where SHA-256 has no collision, declared sizes are true and connections send true bytes of
what they were listed, in every state that the server reaches:

* complete content is what its digest names, and received content is a beginning of it;
* whatever happens next, complete content that the current attempt of a prune lists, or an
  attempt that is not installed, stays, and only a prune takes any away;
* a chunk is answered with an offset of at least the size of its content only when the complete
  content is there.

Which bytes of the content a connection sends, and in which order, does not matter. -/
theorem content_delivered_whole (hSha : Function.Injective host.sha)
    (hRun : Machine.run (step host) start actions = some s)
    (hHonest : Machine.Meets (step host) (Honest host) start actions) :
    (∀ d content, s.storage.blobs.get d = some content → host.sha content = d) ∧
    (∀ d part, s.storage.parts d = some part →
      ∃ content, host.sha content = d ∧ part <+: content) ∧
    (∀ a t, Honest host s a → step host s a = some t →
      ∀ d content, s.storage.blobs.get d = some content →
      (∀ current attempts entries cut, a = .prune current attempts entries cut →
        Needed host s.storage current d) → t.storage.blobs.get d = some content) ∧
    (∀ conn record d start data, Honest host s (.chunk conn record d start data none) →
      ∀ offset, (chunkHostedApp host record d start data).answer s.storage = .ok offset →
      ∀ file, record.content d = some file → file.size ≤ offset →
      ∃ content, ((chunkHostedApp host record d start data).after s.storage).blobs.get d =
          some content ∧ host.sha content = d ∧ content.length = file.size) := by
  have hInv : Inv host s := Machine.invariant_run_meets (step_inv hSha) inv_start hRun hHonest
  refine ⟨hInv.ok.blobs, hInv.ok.parts, ?_, ?_⟩
  · intro a t hNext hStep d content hBlob hNeeded
    exact step_keeps hSha hInv hNext hStep hBlob hNeeded
  · rintro conn record d start data ⟨hRecord, hListed, hSent⟩ offset hAnswer file hFile hSize
    obtain ⟨-, hDelivered⟩ := (holds_chunk hSha hInv.ok hRecord hSent).answered hAnswer
    have hShort := hInv.listed conn record.attempt d hListed
    obtain ⟨rfl, -⟩ := hRecord.declared hFile
    exact hDelivered file hFile hShort hSize

def plainFiles : List (HostedAppFile Bytes) :=
  [{ sha256 := [2, 3], size := 2, path := "Info.plist", kind := .file }]

/-- Digests that are the content, and one manifest. -/
def plainHost : Host Bytes where
  sha := id
  manifestFiles content :=
    if content = [1] then some plainFiles else none

def plainOffer : HostedAppOffer Bytes where
  attempt := "first"
  bundleId := "dev.fixture"
  mode := .release
  devClientScheme := none
  arguments := none
  manifest := { sha256 := [1], size := 1 }

def plainRecord (files : List (HostedAppFile Bytes)) : HostedAppRecord Bytes :=
  { plainOffer with state := .receiving, launched := .no, notice := none, files := files }

/-- The manifest and half a file, a restart, and an offer over another connection. -/
def resumed : List (Action Bytes) :=
  [.offer 0 plainOffer none, .chunk 0 (plainRecord []) [1] 0 [1] none,
    .offer 0 plainOffer none, .chunk 0 (plainRecord plainFiles) [2, 3] 0 [2] none, .die,
    .offer 1 plainOffer none]

theorem honest_plainOffer : HonestOffer plainHost plainOffer where
  manifest := ⟨[1], rfl, rfl⟩
  files := by
    rintro content files hContent hFiles file hFile
    obtain rfl : content = [1] := hContent
    obtain rfl : plainFiles = files := Option.some.inj hFiles
    obtain rfl := List.mem_singleton.mp hFile
    exact ⟨[2, 3], rfl, rfl⟩

theorem honest_plainRecord {files : List (HostedAppFile Bytes)}
    (h : ∀ file ∈ files, file ∈ plainFiles) :
    HonestRecord plainHost (plainRecord files) where
  manifest := ⟨[1], rfl, rfl⟩
  files file hFile := by
    obtain rfl := List.mem_singleton.mp (h file hFile)
    exact ⟨[2, 3], rfl, rfl⟩

theorem meets_resumed :
    Machine.Meets (step plainHost) (Honest plainHost) start resumed := by
  refine And.intro honest_plainOffer ?_
  refine And.intro
    ⟨honest_plainRecord (by simp), List.mem_singleton_self _, [1], rfl, List.prefix_rfl⟩ ?_
  refine And.intro honest_plainOffer ?_
  refine And.intro
    ⟨honest_plainRecord fun _ h => h, List.mem_singleton_self _, [2, 3], rfl, [3], rfl⟩ ?_
  refine And.intro trivial ?_
  exact And.intro honest_plainOffer trivial

theorem content_delivered_whole_resumed :
    ∃ s, Machine.run (step plainHost) start resumed = some s ∧
      ∃ content, ((chunkHostedApp plainHost (plainRecord plainFiles) [2, 3] 1 [3]).after
        s.storage).blobs.get [2, 3] = some content ∧ content.length = 2 := by
  refine ⟨_, rfl, ?_⟩
  have hRun : Machine.run (step plainHost) start resumed = some _ := rfl
  have h := (content_delivered_whole Function.injective_id hRun meets_resumed).2.2.2
  obtain ⟨content, hBlob, -, hLength⟩ := h 1 (plainRecord plainFiles) [2, 3] 1 [3]
    ⟨honest_plainRecord fun _ h => h, List.mem_singleton_self _, [2, 3], rfl, ⟨[], rfl⟩⟩ 2 rfl
    { sha256 := [2, 3], size := 2 } rfl (by decide)
  exact ⟨content, hBlob, hLength⟩

end Stim.HostedApp
