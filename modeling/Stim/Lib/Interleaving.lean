import Mathlib.Tactic

/-!
# Interleaved programs and rely-guarantee reasoning

A process runs a *program*: a tree of atomic requests whose replies choose the
next request.  A *system* gives the requests a meaning on a shared world and
lets any number of processes start calls, perform one request at a time, hand
a result back to their own memory, and crash between any two requests.

The choices of the scheduler are data, so a run is a list of choices and
`System.step` is executable.  The outcome of a request that the world does not
determine (a random value, a race outside the model) is read from an oracle
that is part of the choice.

Reasoning is compositional.  A `Contract` fixes a world invariant and, for
every process, a *rely*: a preorder that every step of every other process
stays in.  `Safe` says that a program keeps the contract under arbitrary
interference and ends in its postcondition.  `Verified.sound` turns one `Safe`
proof for each call into an invariant of every reachable state.
-/

namespace Interleaving

/-! ## Programs -/

/-- A program over the requests `Op`, each answered by a value of `Res`. -/
inductive Prog (Op : Type) (Res : Op → Type) (α : Type) : Type where
  | ret (value : α) : Prog Op Res α
  | op (request : Op) (next : Res request → Prog Op Res α) : Prog Op Res α

namespace Prog

variable {Op : Type} {Res : Op → Type} {α β γ : Type}

/-- Sequential composition: graft the continuation onto every result. -/
def bind : Prog Op Res α → (α → Prog Op Res β) → Prog Op Res β
  | .ret a, f => f a
  | .op o k, f => .op o fun r => (k r).bind f

/-- The program that performs one request and returns its reply. -/
def perform (o : Op) : Prog Op Res (Res o) := .op o .ret

instance : Monad (Prog Op Res) where
  pure := .ret
  bind := .bind

theorem bind_assoc' (x : Prog Op Res α) (f : α → Prog Op Res β) (g : β → Prog Op Res γ) :
    (x.bind f).bind g = x.bind fun a => (f a).bind g := by
  induction x with
  | ret a => rfl
  | op o k ih => exact congrArg (Prog.op o) (funext ih)

theorem bind_ret (x : Prog Op Res α) : x.bind .ret = x := by
  induction x with
  | ret a => rfl
  | op o k ih => exact congrArg (Prog.op o) (funext ih)

instance : LawfulMonad (Prog Op Res) := LawfulMonad.mk' _ bind_ret (fun _ _ => rfl) bind_assoc'

end Prog

/-! ## Systems of processes -/

/-- What calls the processes may start and what their requests do. -/
structure System (Op : Type) (Res : Op → Type) (Pid World : Type) where
  /-- The calls a process can start. -/
  Call : Type
  /-- The result of a call. -/
  Ret : Call → Type
  /-- What the world leaves open about a request. -/
  Oracle : Type
  /-- The program a call runs. -/
  prog : Pid → (c : Call) → Prog Op Res (Ret c)
  /-- One atomic request of a process; `none` when it cannot happen. -/
  exec : Oracle → Pid → (o : Op) → World → Option (Res o × World)
  /-- What starting a call does to the caller's own memory. -/
  invoke : Pid → Call → World → Option World
  /-- What a returned result does to the caller's own memory. -/
  finish : Pid → (c : Call) → Ret c → World → Option World
  /-- The death of a process. -/
  crash : Pid → World → Option World
  /-- Everything else that moves by itself. -/
  env : Oracle → World → Option World

namespace System

variable {Op : Type} {Res : Op → Type} {Pid World : Type}

/-- The scheduler's next move. -/
inductive Choice (S : System Op Res Pid World) where
  | invoke (p : Pid) (c : S.Call)
  | act (p : Pid) (oracle : S.Oracle)
  | finish (p : Pid)
  | crash (p : Pid)
  | env (oracle : S.Oracle)

/-- The shared world and the rest of the program each process is running. -/
structure State (S : System Op Res Pid World) where
  world : World
  code : Pid → Option (Σ c : S.Call, Prog Op Res (S.Ret c))

variable [DecidableEq Pid] (S : System Op Res Pid World)

/-- The state before any process has started a call. -/
def start (w : World) : S.State := ⟨w, fun _ => none⟩

/-- One move of the scheduler; `none` when it is not enabled. -/
def step : S.Choice → S.State → Option S.State
  | .invoke p c, s =>
      match s.code p with
      | none => (S.invoke p c s.world).map fun w =>
          ⟨w, Function.update s.code p (some ⟨c, S.prog p c⟩)⟩
      | some _ => none
  | .act p oracle, s =>
      match s.code p with
      | some ⟨c, .op o k⟩ => (S.exec oracle p o s.world).map fun rw =>
          ⟨rw.2, Function.update s.code p (some ⟨c, k rw.1⟩)⟩
      | _ => none
  | .finish p, s =>
      match s.code p with
      | some ⟨c, .ret a⟩ => (S.finish p c a s.world).map fun w =>
          ⟨w, Function.update s.code p none⟩
      | _ => none
  | .crash p, s => (S.crash p s.world).map fun w =>
      ⟨w, Function.update s.code p none⟩
  | .env oracle, s => (S.env oracle s.world).map fun w => ⟨w, s.code⟩

/-- Follow a list of moves from a state. -/
def run : List S.Choice → S.State → Option S.State
  | [], s => some s
  | choice :: rest, s => (S.step choice s).bind (run rest)

/-- The states of the runs from `s₀` all of whose moves satisfy `ok` in the
state they are made in. -/
inductive Reach (ok : S.State → S.Choice → Prop) (s₀ : S.State) : S.State → Prop
  | start : Reach ok s₀ s₀
  | step {s s' : S.State} (choice : S.Choice) :
      Reach ok s₀ s → ok s choice → S.step choice s = some s' → Reach ok s₀ s'

variable {S}

/-- One move keeps what each kind of world change keeps. -/
theorem step_world {P : World → Prop} {choice : S.Choice} {s s' : S.State}
    (hInvoke : ∀ p c w', choice = .invoke p c → S.invoke p c s.world = some w' → P w')
    (hExec : ∀ oracle p o r w', S.exec oracle p o s.world = some (r, w') → P w')
    (hFinish : ∀ p c a w', S.finish p c a s.world = some w' → P w')
    (hCrash : ∀ p w', S.crash p s.world = some w' → P w')
    (hEnv : ∀ oracle w', S.env oracle s.world = some w' → P w')
    (hStep : S.step choice s = some s') : P s'.world := by
  cases choice with
  | invoke p c =>
      simp only [step] at hStep
      split at hStep
      · obtain ⟨w', hw, rfl⟩ := Option.map_eq_some_iff.mp hStep
        exact hInvoke p c w' rfl hw
      · cases hStep
  | act p oracle =>
      simp only [step] at hStep
      split at hStep
      · obtain ⟨⟨r, w'⟩, hw, rfl⟩ := Option.map_eq_some_iff.mp hStep
        exact hExec oracle p _ r w' hw
      · cases hStep
  | finish p =>
      simp only [step] at hStep
      split at hStep
      · obtain ⟨w', hw, rfl⟩ := Option.map_eq_some_iff.mp hStep
        exact hFinish p _ _ w' hw
      · cases hStep
  | crash p =>
      obtain ⟨w', hw, rfl⟩ := Option.map_eq_some_iff.mp hStep
      exact hCrash p w' hw
  | env oracle =>
      obtain ⟨w', hw, rfl⟩ := Option.map_eq_some_iff.mp hStep
      exact hEnv oracle w' hw

/-- A computed run is a run: used to exhibit reachable states. -/
theorem Reach.of_run {ok : S.State → S.Choice → Prop} {s₀ s : S.State} (choices : List S.Choice)
    {s' : S.State} (hReach : S.Reach ok s₀ s) (hOk : ∀ choice ∈ choices, ∀ s, ok s choice)
    (hRun : S.run choices s = some s') : S.Reach ok s₀ s' := by
  induction choices generalizing s with
  | nil =>
      simp only [run, Option.some.injEq] at hRun
      exact hRun ▸ hReach
  | cons choice rest ih =>
      simp only [run, Option.bind_eq_some_iff] at hRun
      obtain ⟨mid, hStep, hRest⟩ := hRun
      have hRestOk : ∀ choice ∈ rest, ∀ s, ok s choice :=
        fun c hc => hOk c (List.mem_cons_of_mem _ hc)
      exact ih (.step choice hReach (hOk choice (List.mem_cons_self ..) s) hStep) hRestOk hRest

/-- Where every request of a process can happen, its program can be run to its
end by the process alone. -/
theorem can_return {p : Pid}
    (hExec : ∀ o w, ∃ oracle r w', S.exec oracle p o w = some (r, w')) {c : S.Call} :
    ∀ {x : Prog Op Res (S.Ret c)} {s : S.State}, s.code p = some ⟨c, x⟩ →
      ∃ (oracles : List S.Oracle) (s' : S.State) (a : S.Ret c),
        S.run (oracles.map (.act p)) s = some s' ∧ s'.code p = some ⟨c, .ret a⟩ := by
  intro x
  induction x with
  | ret a =>
      intro s hCode
      exact ⟨[], s, a, rfl, hCode⟩
  | op o k ih =>
      intro s hCode
      obtain ⟨oracle, r, w', hOp⟩ := hExec o s.world
      have hNext : (⟨w', Function.update s.code p (some ⟨c, k r⟩)⟩ : S.State).code p =
          some ⟨c, k r⟩ := Function.update_self ..
      obtain ⟨oracles, s', a, hRun, hEnd⟩ := ih r hNext
      refine ⟨oracle :: oracles, s', a, ?_, hEnd⟩
      rw [List.map_cons, run, step]
      simp only [hCode, hOp, Option.map_some, Option.bind_some]
      exact hRun

end System

/-! ## Contracts -/

/-- A world invariant and, for each process, what the others may do. -/
structure Contract (Pid World : Type) where
  inv : World → Prop
  rely : Pid → World → World → Prop
  rely_refl : ∀ p w, rely p w w
  rely_trans : ∀ {p u v w}, rely p u v → rely p v w → rely p u w

namespace Contract

variable {Pid World : Type}

/-- What a step of `p` owes: the invariant, and every other process's rely. -/
structure Guar (C : Contract Pid World) (p : Pid) (w w' : World) : Prop where
  inv : C.inv w'
  others : ∀ q, q ≠ p → C.rely q w w'

theorem Guar.trans {C : Contract Pid World} {p : Pid} {u v w : World} (h : C.Guar p u v)
    (h' : C.Guar p v w) : C.Guar p u w :=
  ⟨h'.inv, fun q hq => C.rely_trans (h.others q hq) (h'.others q hq)⟩

/-- An assertion that no step of another process can falsify. -/
def Stable (C : Contract Pid World) (p : Pid) (P : World → Prop) : Prop :=
  ∀ {w w'}, C.inv w → C.inv w' → C.rely p w w' → P w → P w'

end Contract

section Safe

variable {Op : Type} {Res : Op → Type} {Pid World : Type} {α β : Type}
variable (S : System Op Res Pid World) (C : Contract Pid World)

/-- `Safe S C p x Q w`: run by `p` from `w` under any interference within its
rely, `x` keeps the contract at every request and returns only results that
satisfy `Q` from then on. -/
def Safe (p : Pid) : Prog Op Res α → (α → World → Prop) → World → Prop
  | .ret a, Q, w => ∀ w', C.inv w' → C.rely p w w' → Q a w'
  | .op o k, Q, w => ∀ w', C.inv w' → C.rely p w w' →
      ∀ oracle r w'', S.exec oracle p o w' = some (r, w'') →
        C.Guar p w' w'' ∧ Safe p (k r) Q w''

variable {S C} {p : Pid}

variable {x : Prog Op Res α} {Q : α → World → Prop}

theorem Safe.rely {w w' : World} (hSafe : Safe S C p x Q w) (hRely : C.rely p w w') :
    Safe S C p x Q w' := by
  cases x with
  | ret a => exact fun v hInv hv => hSafe v hInv (C.rely_trans hRely hv)
  | op o k => exact fun v hInv hv => hSafe v hInv (C.rely_trans hRely hv)

variable {w : World}

/-- A result may be used at once when its assertion is stable. -/
theorem Safe.ret {a : α} (hInv : C.inv w) (hStable : C.Stable p (Q a)) (hQ : Q a w) :
    Safe S C p (.ret a) Q w :=
  fun _ hInv' hRely => hStable hInv hInv' hRely hQ

theorem Safe.mono {Q Q' : α → World → Prop} (hSafe : Safe S C p x Q w)
    (hQ : ∀ a v, C.inv v → Q a v → Q' a v) : Safe S C p x Q' w := by
  induction x generalizing w with
  | ret a => exact fun v hInv hv => hQ a v hInv (hSafe v hInv hv)
  | op o k ih =>
      intro v hInv hv oracle r u hExec
      obtain ⟨hGuar, hNext⟩ := hSafe v hInv hv oracle r u hExec
      exact ⟨hGuar, ih r hNext⟩

/-- Two postconditions proved apart hold together. -/
theorem Safe.and {Q Q' : α → World → Prop} (h : Safe S C p x Q w) (h' : Safe S C p x Q' w) :
    Safe S C p x (fun a v => Q a v ∧ Q' a v) w := by
  induction x generalizing w with
  | ret a => exact fun v hInv hv => ⟨h v hInv hv, h' v hInv hv⟩
  | op o k ih =>
      intro v hInv hv oracle r u hExec
      obtain ⟨hGuar, hNext⟩ := h v hInv hv oracle r u hExec
      exact ⟨hGuar, ih r hNext (h' v hInv hv oracle r u hExec).2⟩

/-- A preorder that the others' steps and the program's own stay in relates
the start of a program to its end. -/
theorem Safe.track {R : World → World → Prop} (hTrans : ∀ {u v w}, R u v → R v w → R u w)
    (hRely : ∀ {v w}, C.rely p v w → R v w) (hGuar : ∀ {v w}, C.Guar p v w → R v w)
    (hSafe : Safe S C p x Q w) : Safe S C p x (fun a v => Q a v ∧ R w v) w := by
  induction x generalizing w with
  | ret a => exact fun v hInv hv => ⟨hSafe v hInv hv, hRely hv⟩
  | op o k ih =>
      intro v hInv hv oracle r u hExec
      obtain ⟨hStep, hNext⟩ := hSafe v hInv hv oracle r u hExec
      have hStart : R w u := hTrans (hRely hv) (hGuar hStep)
      exact ⟨hStep, (ih r hNext).mono fun _ _ _ h => ⟨h.1, hTrans hStart h.2⟩⟩

/-- Sequential composition: the first program's postcondition is what the
second one starts from. -/
theorem Safe.bind {f : α → Prog Op Res β} {Q' : β → World → Prop} (hx : Safe S C p x Q w)
    (hf : ∀ a v, C.inv v → Q a v → Safe S C p (f a) Q' v) : Safe S C p (x.bind f) Q' w := by
  induction x generalizing w with
  | ret a =>
      -- The continuation starts after the interference that followed `ret`.
      have hStart : ∀ v, C.inv v → C.rely p w v → Safe S C p (f a) Q' v :=
        fun v hInv hv => hf a v hInv (hx v hInv hv)
      show Safe S C p (f a) Q' w
      cases hfa : f a with
      | ret b =>
          intro v hInv hv
          have := hStart v hInv hv
          rw [hfa] at this
          exact this v hInv (C.rely_refl p v)
      | op o k =>
          intro v hInv hv
          have := hStart v hInv hv
          rw [hfa] at this
          exact this v hInv (C.rely_refl p v)
  | op o k ih =>
      intro v hInv hv oracle r u hExec
      obtain ⟨hGuar, hNext⟩ := hx v hInv hv oracle r u hExec
      exact ⟨hGuar, ih r hNext⟩

end Safe

/-! ## Soundness -/

section Verified

variable {Op : Type} {Res : Op → Type} {Pid World : Type} [DecidableEq Pid]

/-- The proof obligations of a system against a contract, for the runs whose
moves satisfy `ok`.  `Idle` is what a process that runs no call knows. -/
structure Verified (S : System Op Res Pid World) (C : Contract Pid World)
    (ok : S.State → S.Choice → Prop) (Idle : Pid → World → Prop)
    (Post : Pid → (c : S.Call) → S.Ret c → World → Prop) : Prop where
  idle : ∀ p, C.Stable p (Idle p)
  invoke : ∀ {s : S.State} {p : Pid} {c : S.Call} {w' : World}, C.inv s.world →
    Idle p s.world → ok s (.invoke p c) → S.invoke p c s.world = some w' →
      C.Guar p s.world w' ∧ Safe S C p (S.prog p c) (Post p c) w'
  finish : ∀ {w : World} {p : Pid} {c : S.Call} {a : S.Ret c} {w' : World},
    C.inv w → Post p c a w → S.finish p c a w = some w' → C.Guar p w w' ∧ Idle p w'
  crash : ∀ {s : S.State} {p : Pid} {w' : World}, C.inv s.world →
    ok s (.crash p) → S.crash p s.world = some w' → C.Guar p s.world w' ∧ Idle p w'
  env : ∀ {w w' : World} {oracle : S.Oracle}, C.inv w →
    S.env oracle w = some w' → C.inv w' ∧ ∀ p, C.rely p w w'

/-- Every running program is still safe, and every other process is idle. -/
structure AllSafe (S : System Op Res Pid World) (C : Contract Pid World)
    (Idle : Pid → World → Prop)
    (Post : Pid → (c : S.Call) → S.Ret c → World → Prop) (s : S.State) : Prop where
  inv : C.inv s.world
  running : ∀ p c (x : Prog Op Res (S.Ret c)), s.code p = some ⟨c, x⟩ →
    Safe S C p x (Post p c) s.world
  resting : ∀ p, s.code p = none → Idle p s.world

variable {S : System Op Res Pid World} {C : Contract Pid World}
  {ok : S.State → S.Choice → Prop} {Idle : Pid → World → Prop}
  {Post : Pid → (c : S.Call) → S.Ret c → World → Prop}

/-- A step of `p` that keeps its guarantee keeps every other program safe. -/
private theorem allSafe_update {s : S.State} {p : Pid} {w' : World}
    {item : Option (Σ c : S.Call, Prog Op Res (S.Ret c))} (hIdle : ∀ p, C.Stable p (Idle p))
    (hSafe : AllSafe S C Idle Post s) (hGuar : C.Guar p s.world w')
    (hItem : ∀ c x, item = some ⟨c, x⟩ → Safe S C p x (Post p c) w')
    (hNone : item = none → Idle p w') :
    AllSafe S C Idle Post ⟨w', Function.update s.code p item⟩ where
  inv := hGuar.inv
  running := by
    intro q c x hCode
    by_cases hq : q = p
    · subst hq
      simp only [Function.update_self] at hCode
      exact hItem c x hCode
    · simp only [Function.update_of_ne hq] at hCode
      exact (hSafe.running q c x hCode).rely (hGuar.others q hq)
  resting := by
    intro q hCode
    by_cases hq : q = p
    · subst hq
      simp only [Function.update_self] at hCode
      exact hNone hCode
    · simp only [Function.update_of_ne hq] at hCode
      exact hIdle q hSafe.inv hGuar.inv (hGuar.others q hq) (hSafe.resting q hCode)

/-- One move preserves the invariant and the safety of every program. -/
theorem Verified.step (V : Verified S C ok Idle Post) {s s' : S.State} {choice : S.Choice}
    (hSafe : AllSafe S C Idle Post s) (hOk : ok s choice) (hStep : S.step choice s = some s') :
    AllSafe S C Idle Post s' := by
  cases choice with
  | invoke p c =>
      simp only [System.step] at hStep
      split at hStep
      · rename_i hCode
        obtain ⟨w', hInvoke, rfl⟩ := Option.map_eq_some_iff.mp hStep
        obtain ⟨hGuar, hProg⟩ := V.invoke hSafe.inv (hSafe.resting p hCode) hOk hInvoke
        refine allSafe_update V.idle hSafe hGuar ?_ (fun h => by cases h)
        intro c' x hx
        cases hx
        exact hProg
      · cases hStep
  | act p oracle =>
      simp only [System.step] at hStep
      split at hStep
      · rename_i c o k hCode
        obtain ⟨⟨r, w'⟩, hExec, rfl⟩ := Option.map_eq_some_iff.mp hStep
        obtain ⟨hGuar, hNext⟩ := hSafe.running p c _ hCode s.world hSafe.inv
          (C.rely_refl p _) oracle r w' hExec
        refine allSafe_update V.idle hSafe hGuar ?_ (fun h => by cases h)
        intro c' x hx
        cases hx
        exact hNext
      · cases hStep
  | finish p =>
      simp only [System.step] at hStep
      split at hStep
      · rename_i c a hCode
        obtain ⟨w', hFinish, rfl⟩ := Option.map_eq_some_iff.mp hStep
        have hPost := hSafe.running p c _ hCode s.world hSafe.inv (C.rely_refl p _)
        obtain ⟨hGuar, hIdle⟩ := V.finish hSafe.inv hPost hFinish
        refine allSafe_update V.idle hSafe hGuar ?_ (fun _ => hIdle)
        intro c' x hx
        cases hx
      · cases hStep
  | crash p =>
      simp only [System.step] at hStep
      obtain ⟨w', hCrash, rfl⟩ := Option.map_eq_some_iff.mp hStep
      obtain ⟨hGuar, hIdle⟩ := V.crash hSafe.inv hOk hCrash
      refine allSafe_update V.idle hSafe hGuar ?_ (fun _ => hIdle)
      intro c' x hx
      cases hx
  | env oracle =>
      simp only [System.step] at hStep
      obtain ⟨w', hEnv, rfl⟩ := Option.map_eq_some_iff.mp hStep
      obtain ⟨hInv', hRely⟩ := V.env hSafe.inv hEnv
      exact ⟨hInv', fun q c x hCode => (hSafe.running q c x hCode).rely (hRely q),
        fun q hCode => V.idle q hSafe.inv hInv' (hRely q) (hSafe.resting q hCode)⟩

/-- **Soundness.**  A verified system keeps its invariant, and every program
in it stays safe, in every state of every admissible run. -/
theorem Verified.sound (V : Verified S C ok Idle Post) {w : World} (hw : C.inv w)
    (hIdle : ∀ p, Idle p w) {s : S.State} (hReach : S.Reach ok (S.start w) s) :
    AllSafe S C Idle Post s := by
  induction hReach with
  | start =>
      refine ⟨hw, ?_, fun p _ => hIdle p⟩
      intro p c x hCode
      simp [System.start] at hCode
  | step choice _ hOk hStep ih => exact V.step ih hOk hStep

end Verified

end Interleaving
