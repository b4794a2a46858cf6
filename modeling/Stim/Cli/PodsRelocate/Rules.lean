import Stim.Cli.PodsRelocate

/-!
# Rules for the operations of a run

`Runs J m s Q` says that the tree is as `J` says whenever a run may die in `m` or stop at an error
of it, and as `Q` says at its answer.
-/

namespace Stim.PodsRelocate

open CutSection CutSection.Section

/-- `findPath` stops at the entry. -/
def found (host : Host) (roots : Roots) : Entry → Bool
  | .directory => false
  | .file content => bytesNameSource host roots content
  | .link target => textNamesSource host roots target

/-- The tree and whether it was changed are as `J` says at every operation and at an error, and as
`Q` says at an answer. -/
def Runs {α : Type} (J : Pods → Bool → Prop) (m : Operation α) (s : Store)
    (Q : α → Pods → Bool → Prop) : Prop :=
  Holds (fun t => J t.pods t.touched) m s (fun a t => Q a t.pods t.touched)
    (fun t => J t.pods t.touched)

section Rules

variable {α β : Type} {J : Pods → Bool → Prop} {s : Store} {Q Q' : α → Pods → Bool → Prop}

theorem runs_pure {a : α} (h : Q a s.pods s.touched) : Runs J (pure a) s Q := holds_pure h

theorem runs_fail {e : Thrown} (h : J s.pods s.touched) : Runs J (fail e : Operation α) s Q :=
  holds_fail h

variable {m : Operation α}

theorem Runs.bind {f : α → Operation β} {R : β → Pods → Bool → Prop} (h : Runs J m s Q)
    (hf : ∀ a t, Q a t.pods t.touched → Runs J (f a) t R) : Runs J (m >>= f) s R :=
  holds_bind (h.mono hf fun _ => id)

theorem Runs.mono (h : Runs J m s Q) (hQ : ∀ a c b, Q a c b → Q' a c b) : Runs J m s Q' :=
  Holds.mono h (fun a t => hQ a t.pods t.touched) fun _ => id

theorem runs_attempt (h : J s.pods s.touched) :
    Runs J attempt s fun _ c b => c = s.pods ∧ b = s.touched := by
  obtain ⟨pods, touched, failing⟩ := s
  cases failing with
  | nil => exact ⟨by rintro t ⟨⟩, rfl, rfl⟩
  | cons fails failing =>
      refine ⟨?_, ?_⟩
      · intro t hMem
        rw [List.mem_singleton.mp hMem]
        exact h
      · cases fails with
        | true => exact h
        | false => exact ⟨rfl, rfl⟩

theorem runs_read {f : Store → Operation α} (h : Runs J (f s) s Q) : Runs J (read >>= f) s Q :=
  holds_bind (holds_read h)

theorem runs_entryAt {path : Path} {f : Option Entry → Operation α}
    (h : Runs J (f (s.pods.get path)) s Q) : Runs J (entryAt path >>= f) s Q := by
  refine holds_bind ?_
  refine holds_bind (holds_read ?_)
  exact holds_pure h

theorem runs_change {f : Pods → Pods} {Q : Unit → Pods → Bool → Prop} (h : J s.pods s.touched)
    (hJ : J (f s.pods) true) (hQ : Q () (f s.pods) true) : Runs J (change f) s Q := by
  refine (runs_attempt h).bind ?_
  rintro _ t ⟨hPods, -⟩
  refine holds_operate ?_ ?_
  · dsimp only
    rw [hPods]
    exact hJ
  · dsimp only
    rw [hPods]
    exact hQ

/-- An operation that fails changes nothing. -/
theorem runs_onError_change {f : Pods → Pods} {handler : Thrown → Operation Unit}
    {Q : Unit → Pods → Bool → Prop} (h : J s.pods s.touched) (hJ : J (f s.pods) true)
    (hQ : Q () (f s.pods) true) (hHandler : ∀ e t, t.pods = s.pods → Runs J (handler e) t Q) :
    Runs J (onError (change f) handler) s Q := by
  refine holds_onError ?_
  refine holds_bind ?_
  obtain ⟨pods, touched, failing⟩ := s
  have hDone : ∀ left : List Bool, Holds (fun t => J t.pods t.touched)
      (operate fun t : Store => { t with pods := f t.pods, touched := true } : Operation Unit)
      ⟨pods, touched, left⟩ (fun a t => Q a t.pods t.touched)
      fun t => ∀ e, Runs J (handler e) t Q := by
    intro left
    exact holds_operate hJ hQ
  cases failing with
  | nil => exact ⟨by rintro t ⟨⟩, hDone []⟩
  | cons fails failing =>
      refine ⟨?_, ?_⟩
      · intro t hMem
        rw [List.mem_singleton.mp hMem]
        exact h
      · cases fails with
        | true => exact fun e => hHandler e _ rfl
        | false => exact hDone failing

/-- An error of a part that changes nothing. -/
theorem runs_onError {handler : Thrown → Operation α}
    (h : Runs (fun c b => c = s.pods ∧ b = s.touched) m s Q) (hJ : J s.pods s.touched)
    (hHandler : ∀ e t, t.pods = s.pods → t.touched = s.touched → Runs J (handler e) t Q) :
    Runs J (onError m handler) s Q := by
  have hWeak : Holds (fun t => J t.pods t.touched) m s (fun a t => Q a t.pods t.touched)
      fun t => t.pods = s.pods ∧ t.touched = s.touched :=
    Holds.weaken h fun t ht => by
      rw [ht.1, ht.2]
      exact hJ
  exact holds_onError (hWeak.mono (fun _ _ => id) fun t ht e => hHandler e t ht.1 ht.2)

theorem runs_readFileSync {path : Path} (h : J s.pods s.touched) :
    Runs J (readFileSync path) s fun content c b =>
      (c = s.pods ∧ b = s.touched) ∧ s.pods.get path = some (.file content) := by
  refine (runs_attempt h).bind ?_
  rintro _ t ⟨hPods, hTouched⟩
  have hJ : J t.pods t.touched := by
    rw [hPods, hTouched]
    exact h
  refine runs_entryAt ?_
  rw [hPods]
  split
  · rename_i content hGet
    exact runs_pure ⟨⟨hPods, hTouched⟩, hGet⟩
  · exact runs_fail hJ

theorem runs_readlinkSync {path : Path} (h : J s.pods s.touched) :
    Runs J (readlinkSync path) s fun target c b =>
      (c = s.pods ∧ b = s.touched) ∧ s.pods.get path = some (.link target) := by
  refine (runs_attempt h).bind ?_
  rintro _ t ⟨hPods, hTouched⟩
  have hJ : J t.pods t.touched := by
    rw [hPods, hTouched]
    exact h
  refine runs_entryAt ?_
  rw [hPods]
  split
  · rename_i target hGet
    exact runs_pure ⟨⟨hPods, hTouched⟩, hGet⟩
  · exact runs_fail hJ

/-- A walk, by what holds when some entries are left to visit. -/
theorem runs_walk (visit : Path → Entry → Operation Unit)
    (I : List (Path × Entry) → Pods → Bool → Prop) (all : List (Path × Entry))
    (hVisit : ∀ e rest t, e :: rest <:+ all → I (e :: rest) t.pods t.touched →
      Runs J (visit e.1 e.2) t fun _ => I rest) :
    ∀ {entries s}, entries <:+ all → I entries s.pods s.touched →
      Runs J (walk visit entries) s fun _ => I [] := by
  intro entries
  induction entries with
  | nil =>
      intro s _ h
      exact runs_pure h
  | cons e rest ih =>
      intro s hSuffix h
      refine (hVisit e rest s hSuffix h).bind ?_
      intro _ t hRest
      exact ih ((List.suffix_cons e rest).trans hSuffix) hRest

/-- A search changes nothing, and passes only entries at which it does not stop. -/
theorem runs_findEntry {host : Host} {roots : Roots} {entries : List (Path × Entry)}
    (h : J s.pods s.touched) :
    Runs J (findEntry (textNamesSource host roots) (bytesNameSource host roots) entries) s
      fun names c b => (c = s.pods ∧ b = s.touched) ∧
        (names = none ↔ ∀ e ∈ entries, found host roots e.2 = false) := by
  induction entries generalizing s with
  | nil => exact runs_pure ⟨⟨rfl, rfl⟩, by simp⟩
  | cons e entries ih =>
      obtain ⟨path, entry⟩ := e
      refine (runs_attempt h).bind ?_
      rintro _ t ⟨hPods, hTouched⟩
      have hJ : J t.pods t.touched := by
        rw [hPods, hTouched]
        exact h
      change Runs J (if found host roots entry = true then pure (some path)
        else findEntry (textNamesSource host roots) (bytesNameSource host roots) entries) t _
      cases hEntry : found host roots entry with
      | true =>
          refine runs_pure ⟨⟨hPods, hTouched⟩, ?_⟩
          simp [hEntry]
      | false =>
          refine (ih hJ).mono ?_
          rintro names c b ⟨⟨hSame, hStill⟩, hNone⟩
          refine ⟨⟨hSame.trans hPods, hStill.trans hTouched⟩, ?_⟩
          rw [hNone]
          simp [hEntry]

theorem runs_findPath {host : Host} {roots : Roots} {listing : Listing} (h : J s.pods s.touched) :
    Runs J (findPath listing [] (textNamesSource host roots) (bytesNameSource host roots)) s
      fun names c b => (c = s.pods ∧ b = s.touched) ∧
        (names = none ↔ ∀ e ∈ listing.below [] s.pods, found host roots e.2 = false) := by
  refine (runs_attempt h).bind ?_
  rintro _ t ⟨hPods, hTouched⟩
  refine runs_read ?_
  rw [← hPods, ← hTouched] at h ⊢
  exact runs_findEntry h

end Rules

end Stim.PodsRelocate
