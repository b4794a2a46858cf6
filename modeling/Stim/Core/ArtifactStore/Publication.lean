import Stim.Core.ArtifactStore

/-!
# Entries are published whole

`StoreCall.Ok` says what a call has staged at each of its operations, and `StoreCall.Effect` what
one operation can do to the entry: nothing, moving it aside, publishing the call's tree, or putting
back what it moved aside.  `Inv` follows: what is at the entry, or was moved aside and may be put
back, is the initial entry or the whole tree of one call.

An absent entry that was present is explained by the last call that moved it aside.  That call
cannot leave its second rename without an entry being there, since that rename fails only on an
entry.
-/

namespace Stim.ArtifactStore

open Function

theorem rename_eq_none {source target : Option Tree} (hSource : source ≠ none)
    (h : rename source target = none) : target ≠ none := by
  rintro rfl
  exact hSource h

theorem rename_eq_some {source target : Option Tree} {tree : Tree}
    (h : rename source target = some tree) : source = some tree := by
  unfold rename at h
  split at h
  · exact h
  · exact h
  · cases h

namespace StoreCall

/-! ## One call -/

/-- What a call has staged, has been written and has moved aside when it comes to a phase. -/
def OkAt (c : StoreCall) : Phase → Prop
  | .checkSignal | .existsFirst | .readFirst | .makeStaging | .checkRemove | .removeTarget =>
      c.replaced = none ∧ c.complete = false ∧ c.written = []
  | .checkCopy | .checkAgain =>
      c.replaced = none ∧ c.complete = false ∧ c.written = [] ∧ c.staging = some []
  | .copy _ left =>
      c.replaced = none ∧ c.complete = false ∧ c.written = [] ∧
        ∃ copied, c.staging = some copied ∧ copied ++ left = c.build
  | .checkCopied =>
      c.replaced = none ∧ c.complete = false ∧ c.written = [] ∧ c.staging = some c.build
  | .metadata => c.replaced = none ∧ c.complete = false ∧ c.staging = some c.tree
  | .checkPublish | .existsAgain | .readAgain | .makeParent | .existsEntry | .moveAside =>
      c.replaced = none ∧ c.complete = true ∧ c.staging = some c.tree
  | .moveIn => c.complete = true ∧ c.staging = some c.tree
  | _ => True

def Ok (c : StoreCall) : Prop := c.OkAt c.phase

/-- Its process may still put back what it moved aside. -/
def Holding (c : StoreCall) : Prop := c.phase = .moveIn ∨ c.phase = .restore

/-- It has moved the entry aside and not yet moved its own tree in. -/
def Between (c : StoreCall) : Prop := c.phase = .moveIn ∧ c.replaced ≠ none

instance (c : StoreCall) : Decidable c.Between := inferInstanceAs (Decidable (_ ∧ _))

/-- What no operation takes back. -/
structure Keeps (c c' : StoreCall) : Prop where
  pid : c'.pid = c.pid
  tree : c.complete = true → c'.complete = true ∧ c'.tree = c.tree
  renamed : c.renamed = true → c'.renamed = true

theorem Keeps.refl (c : StoreCall) : c.Keeps c := ⟨rfl, fun h => ⟨h, rfl⟩, id⟩

/-- What one operation can do to the entry. -/
inductive Effect (c : StoreCall) (entry : Option Tree) : Option Tree → StoreCall → Prop where
  | quiet (c' : StoreCall) (hRenamed : c'.renamed = c.renamed)
      (hHolding : c'.Holding → c'.replaced = none ∨ c.Holding ∧ c'.replaced = c.replaced)
      (hBetween : c.Between → c'.Between ∨ entry ≠ none) : Effect c entry entry c'
  | aside (tree : Tree) (c' : StoreCall) (hEntry : entry = some tree)
      (hPhase : c'.phase = .moveIn) (hReplaced : c'.replaced = some tree)
      (hRenamed : c'.renamed = true) : Effect c entry none c'
  | published (c' : StoreCall) (hComplete : c.complete = true)
      (hPhase : c'.phase = .existsLast) (hRenamed : c'.renamed = true) :
      Effect c entry (some c.tree) c'
  | restored (tree : Tree) (c' : StoreCall) (hHolding : c.Holding)
      (hReplaced : c.replaced = some tree) (hPhase : c'.phase = .renameFailed)
      (hRenamed : c'.renamed = true) : Effect c entry (some tree) c'

/-- One operation keeps what a call has staged and has one of the four effects. -/
structure Spec (c : StoreCall) (entry entry' : Option Tree) (c' : StoreCall) : Prop where
  ok : c'.Ok
  keeps : c.Keeps c'
  effect : c.Effect entry entry' c'

variable {c c' : StoreCall} {entry entry' : Option Tree} {reply : Reply}

variable {phase : Phase}

theorem ok_goto : (c.goto phase).Ok ↔ c.OkAt phase := by
  cases phase <;> rfl

/-- An operation that only goes on, to what is neither a move in nor a restoration. -/
theorem spec_goto (hFrom : c.phase ≠ .moveIn) (hTo : phase ≠ .moveIn ∧ phase ≠ .restore)
    (hAt : c.OkAt phase) :
    Spec c entry entry (c.goto phase) where
  ok := ok_goto.mpr hAt
  keeps := ⟨rfl, fun h => ⟨h, rfl⟩, id⟩
  effect := .quiet _ rfl (fun h => absurd h (by simpa [Holding, goto] using hTo))
    fun h => absurd h.1 hFrom

theorem spec_check (hFrom : c.phase ≠ .moveIn) (hTo : phase ≠ .moveIn ∧ phase ≠ .restore)
    (hAt : c.OkAt phase) : Spec c entry entry (c.check phase) := by
  rw [check]
  split
  · exact spec_goto hFrom (by decide) trivial
  · exact spec_goto hFrom hTo hAt

/-- An operation on the call's own directories. -/
theorem spec_own {staging replaced : Option Tree} (hFrom : c.phase ≠ .moveIn)
    (hPhase : ∀ c : StoreCall, c.OkAt phase) (hTo : phase ≠ .moveIn ∧ phase ≠ .restore) :
    Spec c entry entry
      { c with staging := staging, replaced := replaced, phase := phase } where
  ok := hPhase _
  keeps := ⟨rfl, fun h => ⟨h, rfl⟩, id⟩
  effect := .quiet _ rfl (fun h => absurd h (by simpa [Holding] using hTo))
    fun h => absurd h.1 hFrom

theorem step_spec (hOk : c.Ok) (h : c.step entry reply = some (entry', c')) :
    Spec c entry entry' c' := by
  rw [Ok] at hOk
  have hHolds : c.phase ≠ .moveIn → ¬ c.Between := fun hFrom hBetween => hFrom hBetween.1
  cases hPhase : c.phase <;> rw [hPhase] at hOk hHolds <;> cases reply <;>
    simp only [step, hPhase, readEntry, Option.map_some, Option.map_none, reduceCtorEq] at h
  case checkSignal.ok | existsFirst.ok | readFirst.ok | readFirst.fails =>
    cases h
    refine spec_goto (by simp [hPhase]) ?_ ?_
    · split <;> simp
    · split
      · first | exact hOk | trivial
      · exact hOk
  case makeStaging.ok =>
    cases h
    exact ⟨⟨hOk.1, hOk.2.1, hOk.2.2, rfl⟩, ⟨rfl, fun h => ⟨h, rfl⟩, id⟩,
      .quiet _ rfl (by simp [Holding]) fun h => absurd h (hHolds (by simp))⟩
  case checkCopy.ok | checkAgain.ok =>
    cases h
    exact spec_check (by simp [hPhase]) (by simp)
      ⟨hOk.1, hOk.2.1, hOk.2.2.1, [], hOk.2.2.2, rfl⟩
  case copy.ok clone left =>
    obtain ⟨hReplaced, hComplete, hWritten, copied, hStaging, hBuild⟩ := hOk
    cases left with
    | nil =>
        cases h
        refine spec_goto (by simp [hPhase]) (by simp) ⟨hReplaced, hComplete, hWritten, ?_⟩
        rw [hStaging, ← hBuild, List.append_nil]
    | cons node left =>
        cases h
        refine ⟨⟨hReplaced, hComplete, hWritten, copied ++ [node], ?_, ?_⟩,
          ⟨rfl, fun h => ⟨h, rfl⟩, id⟩,
          .quiet _ rfl (by simp [Holding]) fun h => absurd h (hHolds (by simp))⟩
        · exact congrArg (Option.map (· ++ [node])) hStaging
        · exact (List.append_cons copied node left).symm.trans hBuild
  case copy.fails clone left =>
    cases clone <;> cases left <;> cases h
    · exact spec_goto (by simp [hPhase]) (by simp) trivial
    · exact spec_goto (by simp [hPhase]) (by simp) trivial
    · exact spec_goto (by simp [hPhase]) (by simp) ⟨hOk.1, hOk.2.1, hOk.2.2.1⟩
    · exact spec_goto (by simp [hPhase]) (by simp) ⟨hOk.1, hOk.2.1, hOk.2.2.1⟩
  case checkRemove.ok => cases h; exact spec_check (by simp [hPhase]) (by simp) hOk
  case removeTarget.ok =>
    split at h
    · next hEmpty =>
      cases h
      exact spec_goto (by simp [hPhase]) (by simp) ⟨hOk.1, hOk.2.1, hOk.2.2, hEmpty⟩
    · cases h
  case removeTarget.removes node =>
    split at h
    · split at h
      · cases h
        rw [← hPhase]
        exact ⟨by rw [Ok, hPhase]; exact hOk, ⟨rfl, fun h => ⟨h, rfl⟩, id⟩,
          .quiet _ rfl (by simp [Holding, hPhase]) fun h => absurd h (hHolds (by simp))⟩
      · cases h
    · cases h
  case checkCopied.ok =>
    cases h
    refine spec_check (by simp [hPhase]) (by simp) ⟨hOk.1, hOk.2.1, ?_⟩
    rw [hOk.2.2.2, tree, hOk.2.2.1]
    rfl
  case metadata.ok =>
    cases h
    exact ⟨⟨hOk.1, rfl, hOk.2.2⟩, ⟨rfl, fun _ => ⟨rfl, rfl⟩, id⟩,
      .quiet _ rfl (by simp [Holding]) fun h => absurd h (hHolds (by simp))⟩
  case metadata.writes node =>
    cases h
    refine ⟨⟨hOk.1, hOk.2.1, ?_⟩, ⟨rfl, fun h => ?_, id⟩,
      .quiet _ rfl (by simp [Holding]) fun h => absurd h (hHolds (by simp))⟩
    · simp [hOk.2.2, tree]
    · exact absurd h (by simp [hOk.2.1])
  case checkPublish.ok => cases h; exact spec_check (by simp [hPhase]) (by simp) hOk
  case existsAgain.ok | readAgain.ok | readAgain.fails =>
    cases h
    refine spec_goto (by simp [hPhase]) ?_ ?_
    · split <;> simp
    · split
      · first | exact hOk | trivial
      · exact hOk
  case makeParent.ok => cases h; exact spec_goto (by simp [hPhase]) (by simp) hOk
  case existsEntry.ok =>
    cases h
    refine ⟨ok_goto.mpr ?_, ⟨rfl, fun h => ⟨h, rfl⟩, id⟩,
      .quiet _ rfl (fun _ => .inl hOk.1) fun h => absurd h (hHolds (by simp))⟩
    split
    · exact hOk
    · exact hOk.2
  case moveAside.ok =>
    split at h
    · next tree hRename =>
      cases h
      exact ⟨⟨hOk.2.1, hOk.2.2⟩, ⟨rfl, fun h => ⟨h, rfl⟩, fun _ => rfl⟩,
        .aside tree _ (rename_eq_some hRename) rfl rfl rfl⟩
    · cases h
      exact spec_goto (by simp [hPhase]) (by simp) trivial
  case moveIn.ok =>
    split at h
    · next tree hRename =>
      cases h
      obtain rfl : c.tree = tree := by
        simpa [hOk.2] using rename_eq_some hRename
      exact ⟨trivial, ⟨rfl, fun h => ⟨h, rfl⟩, fun _ => rfl⟩, .published _ hOk.1 rfl rfl⟩
    · next hRename =>
      cases h
      exact ⟨trivial, ⟨rfl, fun h => ⟨h, rfl⟩, id⟩,
        .quiet _ rfl (fun _ => .inr ⟨.inl hPhase, rfl⟩)
          fun _ => .inr (rename_eq_none (by simp [hOk.2]) hRename)⟩
  case restore.ok =>
    split at h
    · next tree hRename =>
      cases h
      exact ⟨trivial, ⟨rfl, fun h => ⟨h, rfl⟩, fun _ => rfl⟩,
        .restored tree _ (.inr hPhase) (rename_eq_some hRename) rfl rfl⟩
    · cases h
      exact spec_goto (by simp [hPhase]) (by simp) trivial
  case renameFailed.ok | existsLast.ok =>
    cases h
    refine spec_goto (by simp [hPhase]) ?_ ?_
    · split <;> simp
    · split <;> trivial
  case renameFailed.fails =>
    split at h
    · cases h
      exact spec_goto (by simp [hPhase]) (by simp) trivial
    · cases h
  case renameFailed.writes node =>
    split at h
    · cases h
      exact spec_own (by simp [hPhase]) (fun _ => trivial) (by simp)
    · cases h
  case makeStaging.fails | removeTarget.fails | metadata.fails | makeParent.fails |
      readLast.ok | readLast.fails =>
    cases h
    exact spec_goto (by simp [hPhase]) (by simp) trivial
  case rmStaging.ok | rmStaging.fails | rmStaging.writes | rmStaging.removes |
      rmReplaced.ok | rmReplaced.fails | rmReplaced.writes | rmReplaced.removes =>
    obtain ⟨⟨dir, removal⟩, -, hCall⟩ := Option.map_eq_some_iff.mp h
    cases hCall
    cases removal <;> exact spec_own (by simp [hPhase]) (fun _ => trivial) (by simp)

theorem Effect.entry_of_not_renamed (h : c.Effect entry entry' c')
    (hRenamed : c'.renamed = false) : entry' = entry := by
  cases h with
  | quiet _ _ _ => rfl
  | aside _ _ _ _ _ hYes => simp [hYes] at hRenamed
  | published _ _ _ hYes => simp [hYes] at hRenamed
  | restored _ _ _ _ _ hYes => simp [hYes] at hRenamed

/-- A call that takes the entry away, or leaves it away, is between its renames. -/
theorem Effect.present (h : c.Effect entry entry' c') :
    entry' ≠ none ∨ c'.Between ∨ entry' = entry ∧ ¬ c.Between := by
  cases h with
  | quiet _ _ _ hBetween =>
      by_cases hFrom : c.Between
      · exact (hBetween hFrom).elim (fun h => .inr (.inl h)) .inl
      · exact .inr (.inr ⟨rfl, hFrom⟩)
  | aside _ _ _ hPhase hReplaced => exact .inr (.inl ⟨hPhase, by simp [hReplaced]⟩)
  | published _ _ _ => exact .inl (by simp)
  | restored _ _ _ _ => exact .inl (by simp)

theorem ok_abort (hOk : c.Ok) : ({ c with aborted := true } : StoreCall).Ok := by
  rw [Ok] at hOk ⊢
  revert hOk
  show c.OkAt c.phase → OkAt { c with aborted := true } c.phase
  cases c.phase <;> exact id

theorem die_eq : c.die = c ∧ ¬ c.Holding ∨ c.die = c.goto (.dead c.copying) := by
  unfold die
  split
  · next hPhase => exact .inl ⟨rfl, by simp [Holding, hPhase]⟩
  · next hPhase => exact .inl ⟨rfl, by simp [Holding, hPhase]⟩
  · exact .inr rfl

theorem not_holding_die : ¬ c.die.Holding := by
  obtain ⟨hDie, hHolding⟩ | hDie := c.die_eq
  · rwa [hDie]
  · simp [hDie, Holding, goto]

theorem ok_die (hOk : c.Ok) : c.die.Ok := by
  obtain ⟨hDie, -⟩ | hDie := c.die_eq
  · rwa [hDie]
  · rw [hDie]
    exact ok_goto.mpr trivial

theorem keeps_die : c.Keeps c.die := by
  obtain ⟨hDie, -⟩ | hDie := c.die_eq
  · rw [hDie]
    exact .refl c
  · rw [hDie]
    exact ⟨rfl, fun h => ⟨h, rfl⟩, id⟩

end StoreCall

/-- An eviction leaves the entry or takes it away. -/
theorem EvictCall.step_entry {e e' : EvictCall} {entry entry' evicted evicted' : Option Tree}
    {reply : Reply} (h : e.step entry evicted reply = some (entry', evicted', e')) :
    entry' = entry ∨ entry' = none := by
  unfold step at h
  split at h
  · obtain ⟨⟨dir, removal⟩, -, hCall⟩ := Option.map_eq_some_iff.mp h
    cases hCall
    exact .inl rfl
  · split at h
    · cases h
      exact .inr rfl
    · cases h
      exact .inl rfl
  · obtain ⟨⟨dir, removal⟩, -, hCall⟩ := Option.map_eq_some_iff.mp h
    cases hCall
    exact .inl rfl
  · cases h

/-! ## All calls -/

variable {initial : Option Tree} {left : Nat → Option Tree} {s t u : State} {a : Action}
variable {token : Nat} {c c' : StoreCall} {entry : Option Tree} {actions : List Action}

@[simp] theorem State.setStore_self : (s.setStore token entry c).stores token = some c :=
  update_self ..

theorem State.setStore_of_ne {other : Nat} (h : other ≠ token) :
    (s.setStore token entry c).stores other = s.stores other :=
  update_of_ne h ..

theorem State.setStore_cases {other : Nat} (h : (s.setStore token entry c').stores other = some c) :
    other = token ∧ c = c' ∨ s.stores other = some c := by
  by_cases hOther : other = token
  · subst hOther
    rw [setStore_self] at h
    cases h
    exact .inl ⟨rfl, rfl⟩
  · rw [setStore_of_ne hOther] at h
    exact .inr h

/-- The initial entry, or one call's whole copied build with everything it wrote to it. -/
def Whole (initial : Option Tree) (s : State) (tree : Tree) : Prop :=
  initial = some tree ∨
    ∃ token c, s.stores token = some c ∧ c.complete = true ∧ c.tree = tree

/-- The calls of a state go on in a later one. -/
def Later (s t : State) : Prop :=
  ∀ token c, s.stores token = some c → ∃ c', t.stores token = some c' ∧ c.Keeps c'

theorem Whole.later {tree : Tree} (h : Whole initial s tree) (hLater : Later s t) :
    Whole initial t tree := by
  obtain hInitial | ⟨token, c, hCall, hComplete, rfl⟩ := h
  · exact .inl hInitial
  · obtain ⟨c', hCall', hKeeps⟩ := hLater token c hCall
    obtain ⟨hComplete', hTree⟩ := hKeeps.tree hComplete
    exact .inr ⟨token, c', hCall', hComplete', hTree⟩

theorem later_of_stores (h : t.stores = s.stores) : Later s t :=
  fun _ c hCall => ⟨c, by rw [h, hCall], .refl c⟩

theorem later_setStore (h : ∀ c, s.stores token = some c → c.Keeps c') :
    Later s (s.setStore token entry c') := by
  intro other c hCall
  by_cases hOther : other = token
  · subst hOther
    exact ⟨c', State.setStore_self, h c hCall⟩
  · exact ⟨c, by rw [State.setStore_of_ne hOther, hCall], .refl c⟩

structure Inv (initial : Option Tree) (s : State) : Prop where
  ok : ∀ token c, s.stores token = some c → c.Ok
  entry : ∀ tree, s.entry = some tree → Whole initial s tree
  aside : ∀ token c tree, s.stores token = some c → c.Holding → c.replaced = some tree →
    Whole initial s tree

theorem inv_start : Inv initial (start initial left) where
  ok := by simp [start]
  entry tree h := .inl h
  aside := by simp [start]

/-- A step that leaves the calls alone and at most takes the entry away. -/
theorem Inv.evicted (h : Inv initial s) (hStores : t.stores = s.stores)
    (hEntry : t.entry = s.entry ∨ t.entry = none) : Inv initial t where
  ok token c hCall := h.ok token c (hStores ▸ hCall)
  entry tree hTree := by
    obtain hSame | hNone := hEntry
    · exact (h.entry tree (hSame ▸ hTree)).later (later_of_stores hStores)
    · rw [hNone] at hTree
      cases hTree
  aside token c tree hCall hHolding hReplaced :=
    (h.aside token c tree (hStores ▸ hCall) hHolding hReplaced).later (later_of_stores hStores)

/-- A new call, of which nothing is known but that it holds nothing. -/
theorem Inv.store (h : Inv initial s) (hNew : s.stores token = none) (hOk : c'.Ok)
    (hHolding : ¬ c'.Holding) : Inv initial (s.setStore token s.entry c') := by
  have hLater : Later s (s.setStore token s.entry c') :=
    later_setStore fun c hCall => by simp [hNew] at hCall
  refine ⟨fun other c hCall => ?_, fun tree hTree => (h.entry tree hTree).later hLater,
    fun other c tree hCall hHolds hReplaced => ?_⟩
  · obtain ⟨-, rfl⟩ | hOld := State.setStore_cases hCall
    · exact hOk
    · exact h.ok other c hOld
  · obtain ⟨-, rfl⟩ | hOld := State.setStore_cases hCall
    · exact absurd hHolds hHolding
    · exact (h.aside other c tree hOld hHolds hReplaced).later hLater

/-- An operation of one call. -/
theorem Inv.storeStep (h : Inv initial s) (hCall : s.stores token = some c)
    (hSpec : c.Spec s.entry entry c') : Inv initial (s.setStore token entry c') := by
  have hLater : Later s (s.setStore token entry c') := later_setStore fun d hd => by
    rw [hCall] at hd
    cases hd
    exact hSpec.keeps
  refine ⟨fun other d hd => ?_, fun tree hTree => ?_, fun other d tree hd hHolds hReplaced => ?_⟩
  · obtain ⟨-, rfl⟩ | hOld := State.setStore_cases hd
    · exact hSpec.ok
    · exact h.ok other d hOld
  · change entry = some tree at hTree
    cases hSpec.effect with
    | quiet _ _ _ => exact (h.entry tree hTree).later hLater
    | aside _ _ => cases hTree
    | published _ hComplete =>
        cases hTree
        exact Whole.later (.inr ⟨token, c, hCall, hComplete, rfl⟩) hLater
    | restored _ _ hHolding hOld =>
        cases hTree
        exact (h.aside token c tree hCall hHolding hOld).later hLater
  · obtain ⟨-, rfl⟩ | hOld := State.setStore_cases hd
    · cases hSpec.effect with
      | quiet _ _ hHolding =>
          obtain hNone | ⟨hHeld, hSame⟩ := hHolding hHolds
          · simp [hNone] at hReplaced
          · exact (h.aside token c tree hCall hHeld (hSame ▸ hReplaced)).later hLater
      | aside old _ hEntry _ hOld =>
          obtain rfl : old = tree := by simpa [hOld] using hReplaced
          exact (h.entry old hEntry).later hLater
      | published _ _ hPhase => simp [StoreCall.Holding, hPhase] at hHolds
      | restored _ _ _ _ hPhase => simp [StoreCall.Holding, hPhase] at hHolds
    · exact (h.aside other d tree hOld hHolds hReplaced).later hLater

theorem State.die_cases {pid : Nat} (h : (s.die pid).stores token = some c') :
    ∃ c, s.stores token = some c ∧ (c' = c ∨ c' = c.die) := by
  obtain ⟨c, hCall, hDie⟩ := Option.map_eq_some_iff.mp h
  refine ⟨c, hCall, ?_⟩
  split at hDie
  · exact .inr hDie.symm
  · exact .inl hDie.symm

theorem later_die {pid : Nat} : Later s (s.die pid) := by
  intro token c hCall
  refine ⟨if c.pid = pid then c.die else c, by simp [State.die, hCall], ?_⟩
  split
  · exact c.keeps_die
  · exact .refl c

/-- The calls of a process that dies hold nothing afterwards. -/
theorem Inv.die {pid : Nat} (h : Inv initial s) : Inv initial (s.die pid) := by
  refine ⟨fun token c' hCall' => ?_, fun tree hTree => (h.entry tree hTree).later later_die,
    fun token c' tree hCall' hHolds hReplaced => ?_⟩
  · obtain ⟨c, hCall, rfl | rfl⟩ := State.die_cases hCall'
    · exact h.ok token c' hCall
    · exact StoreCall.ok_die (h.ok token c hCall)
  · obtain ⟨c, hCall, rfl | rfl⟩ := State.die_cases hCall'
    · exact (h.aside token c' tree hCall hHolds hReplaced).later later_die
    · exact absurd hHolds c.not_holding_die

/-- What an action of a call is: its beginning, or something with one of the four effects. -/
theorem caller_cases (h : Inv initial s) (hCaller : a.caller = some token)
    (hStep : step s a = some t) :
    (s.stores token = none ∧ ∃ c, c.Ok ∧ ¬ c.Holding ∧ t = s.setStore token s.entry c) ∨
    ∃ c c', s.stores token = some c ∧ c.Spec s.entry t.entry c' ∧
      t = s.setStore token t.entry c' := by
  cases a with
  | store other pid build overwrite onRenameError =>
      cases hCaller
      rw [step] at hStep
      split at hStep
      · cases hStep
      · next hNew =>
        cases hStep
        have hOk : (StoreCall.begin pid build overwrite onRenameError).Ok := ⟨rfl, rfl, rfl⟩
        exact .inl ⟨hNew, _, hOk, by simp [StoreCall.Holding, StoreCall.begin], rfl⟩
  | storeStep other reply =>
      cases hCaller
      obtain ⟨c, hCall, hStep⟩ := Option.bind_eq_some_iff.mp hStep
      obtain ⟨⟨entry, c'⟩, hOp, rfl⟩ := Option.map_eq_some_iff.mp hStep
      exact .inr ⟨c, c', hCall, StoreCall.step_spec (h.ok token c hCall) hOp, rfl⟩
  | abort other =>
      cases hCaller
      obtain ⟨c, hCall, rfl⟩ := Option.map_eq_some_iff.mp hStep
      exact .inr ⟨c, _, hCall, ⟨StoreCall.ok_abort (h.ok token c hCall),
        ⟨rfl, fun h => ⟨h, rfl⟩, id⟩, .quiet _ rfl (fun h => .inr ⟨h, rfl⟩) .inl⟩, rfl⟩
  | orphan other node =>
      cases hCaller
      obtain ⟨c, hCall, hStep⟩ := Option.bind_eq_some_iff.mp hStep
      split at hStep
      · next hPhase =>
        cases hStep
        refine .inr ⟨c, { c with staging := c.staging.map (· ++ [node]) }, hCall, ⟨?_,
          ⟨rfl, fun h => ⟨h, rfl⟩, id⟩, .quiet _ rfl (fun h => .inr ⟨h, rfl⟩) .inl⟩, rfl⟩
        simp [StoreCall.Ok, hPhase, StoreCall.OkAt]
      · cases hStep
  | evict call pid => cases hCaller
  | evictStep call reply => cases hCaller
  | die pid => cases hCaller

/-- What the other actions are: at most they take the entry away, or calls stop. -/
theorem other_cases (hCaller : a.caller = none) (hStep : step s a = some t) :
    (t.stores = s.stores ∧ (t.entry = s.entry ∨ t.entry = none)) ∨
      ∃ pid, a = .die pid ∧ t = s.die pid := by
  cases a with
  | store token pid build overwrite onRenameError => cases hCaller
  | storeStep token reply => cases hCaller
  | abort token => cases hCaller
  | orphan token node => cases hCaller
  | die pid =>
      cases hStep
      exact .inr ⟨pid, rfl, rfl⟩
  | evict call pid =>
      rw [step] at hStep
      split at hStep
      · cases hStep
      · cases hStep
        exact .inl ⟨rfl, .inl rfl⟩
  | evictStep call reply =>
      obtain ⟨e, hCall, hStep⟩ := Option.bind_eq_some_iff.mp hStep
      obtain ⟨⟨entry, evicted, e'⟩, hOp, rfl⟩ := Option.map_eq_some_iff.mp hStep
      exact .inl ⟨rfl, EvictCall.step_entry hOp⟩

theorem inv_step (s : State) (a : Action) (t : State) (h : Inv initial s)
    (hStep : step s a = some t) : Inv initial t := by
  cases hCaller : a.caller with
  | none =>
      obtain ⟨hStores, hEntry⟩ | ⟨pid, -, rfl⟩ := other_cases hCaller hStep
      · exact h.evicted hStores hEntry
      · exact h.die
  | some token =>
      obtain ⟨hNew, c, hOk, hHolding, rfl⟩ | ⟨c, c', hCall, hSpec, hNext⟩ :=
        caller_cases h hCaller hStep
      · exact h.store hNew hOk hHolding
      · rw [hNext]
        exact h.storeStep hCall hSpec

theorem later_step (h : Inv initial s) (hStep : step s a = some t) : Later s t := by
  cases hCaller : a.caller with
  | none =>
      obtain ⟨hStores, -⟩ | ⟨pid, -, rfl⟩ := other_cases hCaller hStep
      · exact later_of_stores hStores
      · exact later_die
  | some token =>
      obtain ⟨hNew, c, -, -, rfl⟩ | ⟨c, c', hCall, hSpec, hNext⟩ := caller_cases h hCaller hStep
      · exact later_setStore fun d hd => by simp [hNew] at hd
      · rw [hNext]
        refine later_setStore fun d hd => ?_
        obtain rfl : c = d := by simpa [hCall] using hd
        exact hSpec.keeps

/-! ## Before the first rename -/

/-- An action of a call changes the entry by a rename only. -/
theorem entry_of_not_renamed (h : Inv initial s) (hCaller : a.caller = some token)
    (hStep : step s a = some t) (hCall : t.stores token = some c) (hRenamed : c.renamed = false) :
    t.entry = s.entry := by
  obtain ⟨-, d, -, -, rfl⟩ | ⟨d, c', -, hSpec, hNext⟩ := caller_cases h hCaller hStep
  · rfl
  · obtain rfl : c' = c := by
      rw [hNext, State.setStore_self] at hCall
      exact Option.some.inj hCall
    exact hSpec.effect.entry_of_not_renamed hRenamed

/-- A call that has renamed nothing at the end of a run had renamed nothing on the way. -/
theorem not_renamed_run (h : Inv initial s) (hRun : Machine.run step s actions = some t)
    (hCall : s.stores token = some c') (hEnd : t.stores token = some c)
    (hRenamed : c.renamed = false) : c'.renamed = false := by
  have hKept : Inv initial t ∧
      ∃ d, t.stores token = some d ∧ (c'.renamed = true → d.renamed = true) :=
    Machine.invariant_run (P := fun t => Inv initial t ∧
      ∃ d, t.stores token = some d ∧ (c'.renamed = true → d.renamed = true))
      (fun s a t hInv hStep => by
        obtain ⟨d, hd, hKept⟩ := hInv.2
        obtain ⟨d', hd', hKeeps⟩ := later_step hInv.1 hStep token d hd
        exact ⟨inv_step s a t hInv.1 hStep, d', hd', fun hYes => hKeeps.renamed (hKept hYes)⟩)
      ⟨h, c', hCall, id⟩ hRun
  obtain ⟨d, hd, hKept⟩ := hKept.2
  obtain rfl : d = c := by simpa [hd] using hEnd
  cases hYes : c'.renamed with
  | false => rfl
  | true => simp [hKept hYes] at hRenamed

/-! ## An entry stays -/

/-- The entry is there, or some call has it moved aside. -/
def Present (s : State) : Prop :=
  s.entry ≠ none ∨ ∃ token c, s.stores token = some c ∧ c.Between

/-- Nobody evicts, and no process dies while a call of it is between its two renames. -/
def Spared (s : State) : Action → Prop
  | .evict _ _ | .evictStep _ _ => False
  | .die pid => ∀ token c, s.stores token = some c → c.pid = pid → ¬ c.Between
  | _ => True

theorem present_caller (h : Inv initial s) (hPresent : Present s) (hCaller : a.caller = some token)
    (hStep : step s a = some t) : Present t := by
  obtain ⟨hNew, d, -, -, rfl⟩ | ⟨c, c', hCall, hSpec, hNext⟩ := caller_cases h hCaller hStep
  · obtain hEntry | ⟨other, c, hOther, hBetween⟩ := hPresent
    · exact .inl hEntry
    · have hNe : other ≠ token := fun hSame => by simp [← hSame, hOther] at hNew
      exact .inr ⟨other, c, by rw [State.setStore_of_ne hNe, hOther], hBetween⟩
  · obtain hEntry | hBetween | ⟨hSame, hFrom⟩ := hSpec.effect.present
    · exact .inl hEntry
    · exact .inr ⟨token, c', by rw [hNext, State.setStore_self], hBetween⟩
    · obtain hEntry | ⟨other, d, hOther, hBetween⟩ := hPresent
      · exact .inl (hSame ▸ hEntry)
      · have hNe : other ≠ token := by
          rintro rfl
          obtain rfl : c = d := by simpa [hCall] using hOther
          exact hFrom hBetween
        exact .inr ⟨other, d, by rw [hNext, State.setStore_of_ne hNe, hOther], hBetween⟩

theorem present_step (h : Inv initial s) (hPresent : Present s) (hSpared : Spared s a)
    (hStep : step s a = some t) : Present t := by
  cases a with
  | evict call pid => cases hSpared
  | evictStep call reply => cases hSpared
  | die pid =>
      cases hStep
      obtain hEntry | ⟨token, c, hCall, hBetween⟩ := hPresent
      · exact .inl hEntry
      · have hPid : c.pid ≠ pid := fun hPid => hSpared token c hCall hPid hBetween
        exact .inr ⟨token, c, by simp [State.die, hCall, hPid], hBetween⟩
  | store token pid build overwrite onRenameError =>
      exact present_caller h hPresent rfl hStep
  | storeStep token reply => exact present_caller h hPresent rfl hStep
  | abort token => exact present_caller h hPresent rfl hStep
  | orphan token node => exact present_caller h hPresent rfl hStep

theorem present_run (h : Inv initial s) (hPresent : Present s)
    (hRun : Machine.run step s actions = some t) (hSpared : Machine.Meets step Spared s actions) :
    Present t :=
  (Machine.invariant_run_meets (P := fun s => Inv initial s ∧ Present s)
    (fun s a t hInv hSpared hStep =>
      ⟨inv_step s a t hInv.1 hStep, present_step hInv.1 hInv.2 hSpared hStep⟩)
    ⟨h, hPresent⟩ hRun hSpared).2

/-! ## Entries are published whole -/

/-- In every state that calls reach from an initial entry:

* the entry is absent, the initial one, or one call's whole copied build with everything that its
  `writeMetadata` wrote;
* no action of a call changed the entry if the call has renamed nothing since, and a call that
  ended before its first rename has renamed nothing;
* if nobody evicted and no process died between its two renames, an entry that was present is
  present unless a call is between its two renames now.  That does not take its restoration or
  its cleanup. -/
theorem entry_published_whole (hRun : Machine.run step (start initial left) actions = some t) :
    (t.entry = none ∨ t.entry = initial ∨ ∃ token c, t.stores token = some c ∧
      c.complete = true ∧ t.entry = some c.tree) ∧
    (∀ token c, t.stores token = some c → c.renamed = false → ∀ before a after u v,
      actions = before ++ a :: after → a.caller = some token →
      Machine.run step (start initial left) before = some u → step u a = some v →
      v.entry = u.entry) ∧
    (Machine.Meets step Spared (start initial left) actions → ∀ before after u,
      actions = before ++ after → Machine.run step (start initial left) before = some u →
      u.entry ≠ none → (∀ token c, t.stores token = some c → ¬ c.Between) → t.entry ≠ none) := by
  refine ⟨?_, ?_, ?_⟩
  · cases hEntry : t.entry with
    | none => exact .inl rfl
    | some tree =>
        have hInv : Inv initial t := Machine.invariant_run inv_step inv_start hRun
        obtain hInitial | ⟨token, c, hCall, hComplete, rfl⟩ := hInv.entry tree hEntry
        · exact .inr (.inl hInitial.symm)
        · exact .inr (.inr ⟨token, c, hCall, hComplete, rfl⟩)
  · rintro token c hEnd hRenamed before a after u v rfl hCaller hBefore hStep
    have hInv : Inv initial u := Machine.invariant_run inv_step inv_start hBefore
    obtain ⟨u', hu', hRest⟩ := Machine.run_append.mp hRun
    obtain rfl : u = u' := by simpa [hBefore] using hu'
    obtain ⟨v', hv', hAfter⟩ := Machine.run_cons.mp hRest
    obtain rfl : v = v' := by simpa [hStep] using hv'
    obtain ⟨c', hCall⟩ : ∃ c', v.stores token = some c' := by
      obtain ⟨-, d, -, -, rfl⟩ | ⟨-, d, -, -, hNext⟩ := caller_cases hInv hCaller hStep
      · exact ⟨d, State.setStore_self⟩
      · exact ⟨d, by rw [hNext, State.setStore_self]⟩
    have hNot : c'.renamed = false :=
      not_renamed_run (inv_step u a v hInv hStep) hAfter hCall hEnd hRenamed
    exact entry_of_not_renamed hInv hCaller hStep hCall hNot
  · rintro hSpared before after u rfl hBefore hEntry hBetween
    have hInv : Inv initial u := Machine.invariant_run inv_step inv_start hBefore
    obtain ⟨u', hu', hAfter⟩ := Machine.run_append.mp hRun
    obtain rfl : u = u' := by simpa [hBefore] using hu'
    obtain hPresent | ⟨token, c, hCall, hNow⟩ :=
      present_run hInv (.inl hEntry) hAfter (hSpared.after hBefore)
    · exact hPresent
    · exact absurd hNow (hBetween token c hCall)

def oldApp : Tree := [⟨["Old.app"], none⟩]

def newApp : Tree := [⟨["New.app"], none⟩, ⟨["New.app", "value"], some [1]⟩]

/-- What a call that overwrites does up to its first rename. -/
def untilRename (token files : Nat) : List Action :=
  [.storeStep token .ok, .storeStep token .ok, .storeStep token .fails] ++
    List.replicate (4 + files) (.storeStep token .ok) ++
    [.storeStep token (.writes ⟨["receipt.json"], some [2]⟩)] ++
    [.storeStep token .ok, .storeStep token .ok, .storeStep token .ok, .storeStep token .fails,
      .storeStep token .ok, .storeStep token .ok]

/-- Two processes replace an entry.  The second one finds it moved aside already. -/
def race : List Action :=
  [.store 0 7 newApp true false, .store 1 8 oldApp true false] ++
    untilRename 0 2 ++ untilRename 1 1 ++
    [.storeStep 0 .ok, .storeStep 1 .ok, .storeStep 0 .ok]

theorem meets_race : Machine.Meets step Spared (start (some oldApp) fun _ => none) race :=
  Machine.meets_of_forall fun a ha s => by
    have hAll : race.all (fun a => a.caller.isSome) = true := by decide
    have hCaller := List.all_eq_true.mp hAll a ha
    cases a <;> simp [Action.caller, Spared] at hCaller ⊢

theorem entry_published_whole_race :
    ∃ t, Machine.run step (start (some oldApp) fun _ => none) race = some t ∧ t.entry ≠ none := by
  obtain ⟨t, hRun⟩ :
      ∃ t, Machine.run step (start (some oldApp) fun _ => none) race = some t := ⟨_, rfl⟩
  have hFirst : (Machine.run step (start (some oldApp) fun _ => none) race).bind
      (fun t => (t.stores 0).map (·.phase)) = some .existsLast := rfl
  have hSecond : (Machine.run step (start (some oldApp) fun _ => none) race).bind
      (fun t => (t.stores 1).map (·.phase)) = some (.rmStaging .thrown) := rfl
  have hOthers (n : Nat) : (Machine.run step (start (some oldApp) fun _ => none) race).bind
      (fun t => (t.stores (n + 2)).map (·.phase)) = none := rfl
  rw [hRun] at hFirst hSecond
  refine ⟨t, hRun, (entry_published_whole hRun).2.2 meets_race [] race _ rfl rfl
    (by simp [start]) ?_⟩
  rintro token c hCall ⟨hPhase, -⟩
  match token with
  | 0 => simp [hCall, hPhase] at hFirst
  | 1 => simp [hCall, hPhase] at hSecond
  | n + 2 => simpa [hRun, hCall] using hOthers n

end Stim.ArtifactStore
