import Stim.Lib.Machine
import Mathlib.Data.List.Basic

/-!
# The installers of a warm claim

`installerClaim` of `packages/stim-cli/src/engine/warm-claim.ts`: what a warm claim knows of the
process groups that were spawned under it.  An installer declares a spawn before it, records the
group's leader after it, and waits until the group is gone; `release` leaves the claim in place
while a group that the claim knows of is alive.

A failed spawn, and a group that is gone before it could be recorded, make the claim forget every
group, so it is held long enough in every run where neither comes while a recorded group lingers.
-/

namespace Stim.Cli

/-- The child that a claim's file records. -/
inductive ClaimChild
  | none
  /-- A spawn that is declared and not yet recorded. -/
  | pending
  | process (pid : Nat)
  deriving DecidableEq

/-- A warm claim and the process groups of the machine. -/
structure WarmClaim where
  /-- the groups that this claim has spawned and not yet watched die -/
  groups : List Nat
  child : ClaimChild
  /-- whether the claim is in place -/
  held : Bool
  /-- whether a process group has members -/
  running : Nat → Bool
  /-- every group passed to `record` so far -/
  recorded : List Nat

def WarmClaim.acquired (running : Nat → Bool) : WarmClaim :=
  ⟨[], .none, true, running, []⟩

def WarmClaim.processGroupAlive (claim : WarmClaim) (pid : Nat) : Bool :=
  1 < pid && claim.running pid

/-- Forgets every group; the file's child stays where it cannot be removed. -/
def WarmClaim.forget (claim : WarmClaim) (cleared : Bool) : WarmClaim :=
  { claim with groups := [], child := if cleared then .none else claim.child }

/-- The first group that is alive. -/
def WarmClaim.alive (claim : WarmClaim) : Option Nat :=
  claim.groups.find? fun pid => claim.processGroupAlive pid

def WarmClaim.holding (claim : WarmClaim) : Bool := claim.alive.isSome

/-- How the claim store and the process table answer during one call. -/
structure StoreAnswers where
  /-- the identity of the group's leader could be captured -/
  captured : Bool
  /-- the child could be written -/
  written : Bool
  /-- the child could be removed -/
  cleared : Bool
  deriving DecidableEq

def WarmClaim.declare (claim : WarmClaim) (store : StoreAnswers) : WarmClaim :=
  if store.written then { claim with child := .pending } else claim

def WarmClaim.record (claim : WarmClaim) (pid : Option Nat) (store : StoreAnswers) : WarmClaim :=
  match pid with
  | none => claim.forget store.cleared
  | some pid =>
      let pushed :=
        { claim with groups := claim.groups ++ [pid], recorded := claim.recorded ++ [pid] }
      if store.captured && store.written then { pushed with child := .process pid }
      else if !pushed.processGroupAlive pid then pushed.forget store.cleared
      else pushed

/-- One poll of `settle`: its answer, once nothing is alive. -/
def WarmClaim.poll (claim : WarmClaim) (store : StoreAnswers) : WarmClaim × Option Bool :=
  match claim.alive with
  | none => (claim.forget store.cleared, some true)
  | some _ => (claim, none)

/-- Without an answer by the ceiling, the group is reported as running. -/
def WarmClaim.settle (claim : WarmClaim) (store : StoreAnswers) (ceiling : Bool) :
    WarmClaim × Option Bool :=
  let polled := claim.poll store
  (polled.1, polled.2.or (if ceiling then some false else none))

def WarmClaim.release (claim : WarmClaim) (retained : Bool) : WarmClaim :=
  if retained || claim.holding then claim else { claim with held := false }

inductive InstallerAction
  | declare (store : StoreAnswers)
  /-- `none` is a spawn that failed. -/
  | record (pid : Option Nat) (store : StoreAnswers)
  | settle (store : StoreAnswers) (ceiling : Bool)
  | release (retained : Bool)
  /-- The last member of a group ends. -/
  | groupEnds (pid : Nat)
  deriving DecidableEq

/-- Process ids of group leaders are above 1. -/
def WarmClaim.step (claim : WarmClaim) : InstallerAction → Option WarmClaim
  | .declare store => some (claim.declare store)
  | .record pid store => if pid.all (1 < ·) then some (claim.record pid store) else none
  | .settle store ceiling => some (claim.settle store ceiling).1
  | .release retained => some (claim.release retained)
  | .groupEnds pid => some { claim with running := Function.update claim.running pid false }

/-- While a recorded group is alive the claim is holding, no poll answers that everything is
settled, and a release leaves the claim in place. -/
def WarmClaim.Covers (claim : WarmClaim) : Prop :=
  (∃ pid ∈ claim.recorded, claim.running pid = true) →
    claim.holding = true ∧
    (∀ store ceiling, (claim.settle store ceiling).2 ≠ some true) ∧
    ∀ retained, claim.release retained = claim

/-- No group that the claim knows of is alive. -/
def WarmClaim.Quiet (claim : WarmClaim) : Prop :=
  ∀ pid ∈ claim.groups, claim.processGroupAlive pid = false

/-- A spawn that failed, or a group that is gone before it is recorded, comes while no earlier
group is alive. -/
def WarmClaim.Lone (claim : WarmClaim) : InstallerAction → Prop
  | .record none _ => claim.Quiet
  | .record (some pid) store =>
      store.captured = true ∧ store.written = true ∨ claim.running pid = true ∨ claim.Quiet
  | _ => True

/-! ## Steps and runs -/

/-- The claim knows of every recorded group that is alive. -/
def WarmClaim.Tracks (claim : WarmClaim) : Prop :=
  ∀ pid ∈ claim.recorded, 1 < pid ∧ (claim.running pid = true → pid ∈ claim.groups)

variable {claim next : WarmClaim}

theorem alive_eq_none : claim.alive = none ↔ claim.Quiet := by
  simp [WarmClaim.alive, WarmClaim.Quiet]

theorem WarmClaim.Tracks.covers (h : claim.Tracks) : claim.Covers := by
  rintro ⟨pid, hpid, hrunning⟩
  obtain ⟨hleader, hgroup⟩ := h pid hpid
  obtain ⟨first, hfirst⟩ : ∃ first, claim.alive = some first := by
    rw [← Option.isSome_iff_exists, Option.isSome_iff_ne_none, Ne, alive_eq_none]
    intro hquiet
    have hdead := hquiet pid (hgroup hrunning)
    simp [WarmClaim.processGroupAlive, hleader, hrunning] at hdead
  refine ⟨by simp [WarmClaim.holding, hfirst], ?_, ?_⟩
  · intro store ceiling
    cases ceiling <;> simp [WarmClaim.settle, WarmClaim.poll, hfirst]
  · intro retained
    simp [WarmClaim.release, WarmClaim.holding, hfirst]

/-- Forgetting is safe once no known group is alive. -/
theorem WarmClaim.Tracks.forget (h : claim.Tracks) (hquiet : claim.Quiet) (cleared : Bool) :
    (claim.forget cleared).Tracks := by
  intro pid hpid
  obtain ⟨hleader, hgroup⟩ := h pid hpid
  refine ⟨hleader, ?_⟩
  intro hrunning
  have hdead := hquiet pid (hgroup hrunning)
  have hlive : claim.running pid = true := hrunning
  simp [WarmClaim.processGroupAlive, hleader, hlive] at hdead

theorem WarmClaim.Tracks.record (h : claim.Tracks) {pid : Option Nat} {store : StoreAnswers}
    (hleader : pid.all (1 < ·) = true) (hlone : claim.Lone (.record pid store)) :
    (claim.record pid store).Tracks := by
  cases pid with
  | none => exact h.forget hlone store.cleared
  | some pid =>
      have hleader : 1 < pid := by simpa using hleader
      have hpushed : WarmClaim.Tracks
          { claim with groups := claim.groups ++ [pid], recorded := claim.recorded ++ [pid] } := by
        intro other hother
        rcases List.mem_append.mp hother with hbefore | hsame
        · obtain ⟨hleads, hgroup⟩ := h other hbefore
          exact ⟨hleads, fun hrunning => List.mem_append_left _ (hgroup hrunning)⟩
        · obtain rfl := List.mem_singleton.mp hsame
          exact ⟨hleader, fun _ => List.mem_append_right _ hsame⟩
      unfold WarmClaim.record
      dsimp only
      split_ifs with hstored hgone
      · exact hpushed
      · refine hpushed.forget ?_ store.cleared
        have hdead : claim.running pid = false := by
          simpa [WarmClaim.processGroupAlive, hleader] using hgone
        have hquiet : claim.Quiet := by
          rcases hlone with ⟨hcaptured, hwritten⟩ | hrunning | hquiet
          · simp [hcaptured, hwritten] at hstored
          · simp [hdead] at hrunning
          · exact hquiet
        intro other hother
        rcases List.mem_append.mp hother with hbefore | hsame
        · exact hquiet other hbefore
        · obtain rfl := List.mem_singleton.mp hsame
          simp [WarmClaim.processGroupAlive, hdead]
      · exact hpushed

theorem step_tracks {action : InstallerAction} (h : claim.Tracks) (hlone : claim.Lone action)
    (hstep : claim.step action = some next) : next.Tracks := by
  cases action with
  | declare store =>
      cases hstep
      unfold WarmClaim.declare
      split_ifs
      · exact h
      · exact h
  | record pid store =>
      simp only [WarmClaim.step] at hstep
      split_ifs at hstep with hleader
      cases hstep
      exact h.record hleader hlone
  | settle store ceiling =>
      cases hstep
      show (claim.poll store).1.Tracks
      unfold WarmClaim.poll
      cases halive : claim.alive with
      | none => exact h.forget (alive_eq_none.mp halive) store.cleared
      | some pid => exact h
  | release retained =>
      cases hstep
      unfold WarmClaim.release
      split_ifs
      · exact h
      · exact h
  | groupEnds pid =>
      cases hstep
      intro other hother
      obtain ⟨hleader, hgroup⟩ := h other hother
      refine ⟨hleader, ?_⟩
      intro hrunning
      by_cases hsame : other = pid
      · subst hsame
        simp at hrunning
      · exact hgroup (by simpa [Function.update_of_ne hsame] using hrunning)

/-- A warm claim covers what it spawned in every run where failed spawns come alone. -/
theorem covers_of_lone (running : Nat → Bool) (actions : List InstallerAction)
    (hrun : Machine.run WarmClaim.step (.acquired running) actions = some claim)
    (hlone : Machine.Meets WarmClaim.step WarmClaim.Lone (.acquired running) actions) :
    claim.Covers := by
  have htracks : claim.Tracks :=
    Machine.invariant_run_meets (fun _ _ _ => step_tracks)
      (show (WarmClaim.acquired running).Tracks from nofun) hrun hlone
  exact htracks.covers

instance (claim : WarmClaim) (action : InstallerAction) : Decidable (claim.Lone action) :=
  match action with
  | .record none _ => inferInstanceAs (Decidable (∀ pid ∈ claim.groups, _ = false))
  | .record (some _) _ =>
      inferInstanceAs (Decidable (_ ∨ _ ∨ ∀ pid ∈ claim.groups, _ = false))
  | .declare _ | .settle _ _ | .release _ | .groupEnds _ => isTrue trivial

def storeAnswers : StoreAnswers := ⟨true, true, true⟩

/-- Groups 10 and 11 run. -/
def twoGroups (pid : Nat) : Bool := pid = 10 || pid = 11

/-- Group 10 lingers while a second spawn is recorded. -/
def lingeringInstall : List InstallerAction :=
  [.declare storeAnswers, .record (some 10) storeAnswers, .settle storeAnswers true,
    .declare storeAnswers, .record (some 11) storeAnswers, .groupEnds 11]

theorem covers_of_lone_lingeringInstall :
    ∃ claim, Machine.run WarmClaim.step (.acquired twoGroups) lingeringInstall = some claim ∧
      claim.Covers ∧ claim.running 10 = true ∧ claim.holding = true := by
  obtain ⟨claim, hrun⟩ : ∃ claim, Machine.run WarmClaim.step (.acquired twoGroups)
      lingeringInstall = some claim := ⟨_, rfl⟩
  refine ⟨claim, hrun, covers_of_lone twoGroups lingeringInstall hrun (by decide +kernel), ?_⟩
  cases hrun
  decide +kernel

/-- The second spawn fails while group 10 lingers: the claim forgets it, answers that everything
is settled, and is released. -/
theorem not_covers_failedSpawn :
    ∃ claim, Machine.run WarmClaim.step (.acquired twoGroups)
        [.declare storeAnswers, .record (some 10) storeAnswers, .settle storeAnswers true,
          .declare storeAnswers, .record none storeAnswers] = some claim ∧
      ¬ claim.Covers ∧ claim.running 10 = true ∧ claim.holding = false ∧
      (claim.settle storeAnswers true).2 = some true ∧ (claim.release false).held = false := by
  refine ⟨_, rfl, ?_, by decide +kernel⟩
  intro hcovers
  have hholding := (hcovers ⟨10, by decide +kernel, by decide +kernel⟩).1
  revert hholding
  decide +kernel

end Stim.Cli
