import Mathlib.Tactic.Common

/-!
# Machines

A machine takes actions that may be refused.  Its runs are the action lists in which no
action is refused, and an invariant of its steps is an invariant of its runs.
-/

namespace Machine

variable {S A : Type} (step : S → A → Option S)

/-- The state after a list of actions, or `none` when one of them is refused. -/
def run : S → List A → Option S
  | s, [] => some s
  | s, a :: rest => (step s a).bind fun t => run t rest

variable {step} {s t : S} {a : A} {actions : List A}

@[simp] theorem run_nil : run step s [] = some s := rfl

theorem run_cons : run step s (a :: actions) = some t ↔
    ∃ u, step s a = some u ∧ run step u actions = some t :=
  Option.bind_eq_some_iff

theorem run_append {more : List A} : run step s (actions ++ more) = some t ↔
    ∃ u, run step s actions = some u ∧ run step u more = some t := by
  induction actions generalizing s with
  | nil => simp
  | cons a actions ih =>
      rw [List.cons_append, run_cons]
      constructor
      · rintro ⟨u, hStep, hRun⟩
        obtain ⟨v, hFirst, hMore⟩ := ih.mp hRun
        exact ⟨v, run_cons.mpr ⟨u, hStep, hFirst⟩, hMore⟩
      · rintro ⟨v, hFirst, hMore⟩
        obtain ⟨u, hStep, hRun⟩ := run_cons.mp hFirst
        exact ⟨u, hStep, ih.mpr ⟨v, hRun, hMore⟩⟩

variable {P : S → Prop}

/-- What every step keeps, every run keeps. -/
theorem invariant_run (hStep : ∀ s a t, P s → step s a = some t → P t) (h : P s)
    (hRun : run step s actions = some t) : P t := by
  induction actions generalizing s with
  | nil =>
      cases hRun
      exact h
  | cons a actions ih =>
      obtain ⟨u, hFirst, hRest⟩ := run_cons.mp hRun
      exact ih (hStep s a u h hFirst) hRest

variable {C : S → A → Prop}

/-- What every step that meets a condition keeps, every run of such steps keeps. -/
theorem invariant_run_of (hStep : ∀ s a t, P s → C s a → step s a = some t → P t) (h : P s)
    (hRun : run step s actions = some t)
    (hCond : ∀ before a after u, actions = before ++ a :: after →
      run step s before = some u → C u a) : P t := by
  induction actions generalizing s with
  | nil =>
      cases hRun
      exact h
  | cons a actions ih =>
      obtain ⟨u, hFirst, hRest⟩ := run_cons.mp hRun
      refine ih (hStep s a u h (hCond [] a actions s rfl rfl) hFirst) hRest ?_
      intro before b after v hSplit hBefore
      refine hCond (a :: before) b after v ?_ (run_cons.mpr ⟨u, hFirst, hBefore⟩)
      rw [hSplit]
      rfl

/-- Every action of a run meets a condition on it and the state that it is taken in. -/
def Meets (step : S → A → Option S) (C : S → A → Prop) : S → List A → Prop
  | _, [] => True
  | s, a :: rest => C s a ∧ match step s a with
    | none => True
    | some t => Meets step C t rest

instance decidableMeets (C : S → A → Prop) [∀ s a, Decidable (C s a)] :
    ∀ (s : S) (actions : List A), Decidable (Meets step C s actions)
  | _, [] => isTrue trivial
  | s, a :: rest => match hFirst : step s a with
    | none => decidable_of_iff (C s a) (by simp [Meets, hFirst])
    | some t =>
        have := decidableMeets C t rest
        decidable_of_iff (C s a ∧ Meets step C t rest) (by simp [Meets, hFirst])

theorem invariant_run_meets (hStep : ∀ s a t, P s → C s a → step s a = some t → P t) (h : P s)
    (hRun : run step s actions = some t) (hMeets : Meets step C s actions) : P t := by
  induction actions generalizing s with
  | nil =>
      cases hRun
      exact h
  | cons a actions ih =>
      obtain ⟨u, hFirst, hRest⟩ := run_cons.mp hRun
      rw [Meets, hFirst] at hMeets
      exact ih (hStep s a u h hMeets.1 hFirst) hRest hMeets.2

/-- A condition that the actions of a list meet in every state, a run of them meets. -/
theorem meets_of_forall (h : ∀ a ∈ actions, ∀ s, C s a) : Meets step C s actions := by
  induction actions generalizing s with
  | nil => trivial
  | cons a actions ih =>
      refine ⟨h a List.mem_cons_self s, ?_⟩
      cases hFirst : step s a with
      | none => trivial
      | some t => exact ih fun b hb => h b (List.mem_cons_of_mem a hb)

/-- What is met along a run is met along what comes after a part of it. -/
theorem Meets.after {more : List A} (hMeets : Meets step C s (actions ++ more))
    (hRun : run step s actions = some t) : Meets step C t more := by
  induction actions generalizing s with
  | nil =>
      cases hRun
      exact hMeets
  | cons a actions ih =>
      obtain ⟨u, hFirst, hRest⟩ := run_cons.mp hRun
      rw [List.cons_append, Meets, hFirst] at hMeets
      exact ih hMeets.2 hRest

end Machine
