import Mathlib.Logic.Basic

/-!
# Sections that may be cut short

A section reads and changes a store in one go, operation by operation, and answers or throws.
Nothing else touches the store meanwhile, but the section may be cut between two operations, so
that the store is left as one of them left it.

`Holds P m s Q E` says what is known of a section: every store that it may be cut in satisfies
`P`, it ends in `Q` when it answers and in `E` when it throws.
-/

namespace CutSection

/-- What a section answers, and the stores that its operations leave one after another. -/
def Section (S ε α : Type) : Type := S → Except ε α × List S

/-- The store that a list of operations leaves. -/
def left {S : Type} (s : S) (trace : List S) : S := trace.foldl (fun _ t => t) s

namespace Section

variable {S ε α β : Type}

def answer (m : Section S ε α) (s : S) : Except ε α := (m s).1

/-- The store after the whole section. -/
def after (m : Section S ε α) (s : S) : S := left s (m s).2

/-- The store after its first operations. -/
def cut (m : Section S ε α) (s : S) (operations : Nat) : S := left s ((m s).2.take operations)

def read : Section S ε S := fun s => (.ok s, [])

/-- One operation on the store. -/
def operate (f : S → S) : Section S ε Unit := fun s => (.ok (), [f s])

def fail (error : ε) : Section S ε α := fun _ => (.error error, [])

def ofExcept (answer : Except ε α) : Section S ε α := fun _ => (answer, [])

def bind (m : Section S ε α) (f : α → Section S ε β) : Section S ε β := fun s =>
  match m.answer s with
  | .error e => (.error e, (m s).2)
  | .ok a => ((f a (m.after s)).1, (m s).2 ++ (f a (m.after s)).2)

/-- What `handler` does about an error of `m`. -/
def onError (m : Section S ε α) (handler : ε → Section S ε α) : Section S ε α := fun s =>
  match m.answer s with
  | .error e => ((handler e (m.after s)).1, (m s).2 ++ (handler e (m.after s)).2)
  | .ok _ => m s

instance : Monad (Section S ε) where
  pure a := fun _ => (.ok a, [])
  bind := bind

/-- An answer with `Q`, or an error with `E`. -/
def Ends (Q : α → S → Prop) (E : S → Prop) : Except ε α → S → Prop
  | .ok a, t => Q a t
  | .error _, t => E t

/-- Every store that the section may be cut in satisfies `P`.  It answers with `Q` or throws with
`E`. -/
def Holds (P : S → Prop) (m : Section S ε α) (s : S) (Q : α → S → Prop) (E : S → Prop) : Prop :=
  (∀ t ∈ (m s).2, P t) ∧ Ends Q E (m.answer s) (m.after s)

variable {P : S → Prop} {m : Section S ε α} {f : α → Section S ε β} {s : S}
variable {Q Q' : α → S → Prop} {E E' : S → Prop} {R : β → S → Prop}

theorem left_append (trace more : List S) : left s (trace ++ more) = left (left s trace) more :=
  List.foldl_append

theorem left_mem (trace : List S) : left s trace = s ∨ left s trace ∈ trace := by
  induction trace generalizing s with
  | nil => exact .inl rfl
  | cons t rest ih =>
      obtain hSame | hMem := ih (s := t)
      · exact .inr (by simp [left] at hSame ⊢; simp [hSame])
      · exact .inr (List.mem_cons_of_mem t hMem)

theorem holds_pure {a : α} (h : Q a s) : Holds P (pure a : Section S ε α) s Q E :=
  ⟨by rintro t ⟨⟩, h⟩

theorem holds_fail {e : ε} (h : E s) : Holds P (fail e : Section S ε α) s Q E :=
  ⟨by rintro t ⟨⟩, h⟩

theorem holds_read {Q : S → S → Prop} (h : Q s s) : Holds P (read : Section S ε S) s Q E :=
  ⟨by rintro t ⟨⟩, h⟩

theorem holds_ofExcept {answer : Except ε α} (hOk : ∀ a, answer = .ok a → Q a s)
    (hError : ∀ e, answer = .error e → E s) : Holds P (ofExcept answer : Section S ε α) s Q E := by
  refine ⟨by rintro t ⟨⟩, ?_⟩
  cases answer with
  | ok a => exact hOk a rfl
  | error e => exact hError e rfl

theorem holds_operate {g : S → S} {Q : Unit → S → Prop} (hP : P (g s)) (hQ : Q () (g s)) :
    Holds P (operate g : Section S ε Unit) s Q E :=
  ⟨by simpa [operate] using hP, hQ⟩

/-- One section after another. -/
theorem holds_bind (h : Holds P m s (fun a t => Holds P (f a) t R E) E) :
    Holds P (m >>= f) s R E := by
  show Holds P (bind m f) s R E
  obtain ⟨hTrace, hEnd⟩ := h
  unfold Holds answer after bind
  cases hAnswer : m.answer s with
  | error e =>
      rw [hAnswer] at hEnd
      exact ⟨hTrace, hEnd⟩
  | ok a =>
      rw [hAnswer] at hEnd
      obtain ⟨hMore, hLast⟩ := hEnd
      refine ⟨?_, ?_⟩
      · intro t hMem
        obtain hMem | hMem := List.mem_append.mp hMem
        · exact hTrace t hMem
        · exact hMore t hMem
      · dsimp only
        rw [left_append]
        exact hLast

/-- A section whose error is handled. -/
theorem holds_onError {handler : ε → Section S ε α}
    (h : Holds P m s Q fun t => ∀ e, Holds P (handler e) t Q E) :
    Holds P (onError m handler) s Q E := by
  obtain ⟨hTrace, hEnd⟩ := h
  unfold Holds answer after onError
  cases hAnswer : m.answer s with
  | error e =>
      rw [hAnswer] at hEnd
      obtain ⟨hMore, hLast⟩ := hEnd e
      refine ⟨?_, ?_⟩
      · intro t hMem
        obtain hMem | hMem := List.mem_append.mp hMem
        · exact hTrace t hMem
        · exact hMore t hMem
      · dsimp only
        rw [left_append]
        exact hLast
  | ok a =>
      rw [hAnswer] at hEnd
      dsimp only
      refine ⟨hTrace, ?_⟩
      rw [show (m s).1 = .ok a from hAnswer]
      exact hEnd

theorem Ends.mono {answer : Except ε α} {t : S} (h : Ends Q E answer t)
    (hQ : ∀ a t, Q a t → Q' a t) (hE : ∀ t, E t → E' t) : Ends Q' E' answer t := by
  cases answer with
  | ok a => exact hQ a t h
  | error e => exact hE t h

theorem Holds.mono (h : Holds P m s Q E) (hQ : ∀ a t, Q a t → Q' a t) (hE : ∀ t, E t → E' t) :
    Holds P m s Q' E' :=
  ⟨h.1, h.2.mono hQ hE⟩

theorem Holds.weaken {P' : S → Prop} (h : Holds P m s Q E) (hP : ∀ t, P t → P' t) :
    Holds P' m s Q E :=
  ⟨fun t hMem => hP t (h.1 t hMem), h.2⟩

theorem Holds.cut (h : Holds P m s Q E) (hStart : P s) (operations : Nat) :
    P (m.cut s operations) := by
  obtain hSame | hMem := left_mem (s := s) ((m s).2.take operations)
  · rw [Section.cut, hSame]
    exact hStart
  · exact h.1 _ (List.mem_of_mem_take hMem)

theorem Holds.answered (h : Holds P m s Q E) {a : α} (hAnswer : m.answer s = .ok a) :
    Q a (m.after s) := by
  have hEnd := h.2
  rw [hAnswer] at hEnd
  exact hEnd

theorem Holds.after {R : S → Prop} (h : Holds P m s Q E) (hQ : ∀ a t, Q a t → R t)
    (hE : ∀ t, E t → R t) : R (m.after s) := by
  have hEnd := h.2
  cases hAnswer : m.answer s with
  | ok a =>
      rw [hAnswer] at hEnd
      exact hQ a _ hEnd
  | error e =>
      rw [hAnswer] at hEnd
      exact hE _ hEnd

end Section

end CutSection
