import Stim.Lib.JsString
import Stim.Lib.OrderedMap

/-!
# Presence

`PresenceHub` of `packages/server/src/presence.ts` for one device key: who acts on the device, the
agent and the humans, and what its subscribers are sent.

The hub's `Device` objects live in a heap, as a subscription and a timer refer to the object they
were made with, which the hub may have forgotten since.  Every caller subscribes a function of its
own, so a listener is a subscription's number.  The delays of timers are left out: a timer that is
set may fire at any later time, or never.  Where a finger was and when, and what a gesture was, pass
through the hub.
-/

namespace Stim.Presence

inductive TouchPhase where
  | down
  | move
  | up
  deriving DecidableEq, Repr

structure PresenceTouch (τ : Type) where
  phase : TouchPhase
  /-- the point and its time -/
  point : τ
  deriving DecidableEq

inductive ParticipantKind where
  | viewer
  | host
  | agent
  deriving DecidableEq, Repr

/-- The `touch` of a participant. -/
inductive TouchField (τ : Type) where
  | absent
  /-- `null`: the participant left -/
  | left
  | touched (touch : PresenceTouch τ)
  deriving DecidableEq

structure PresenceParticipant (τ γ : Type) where
  id : JsString
  kind : ParticipantKind
  name : JsString
  color : Nat
  viewOnly : Bool
  touch : TouchField τ
  gesture : Option γ
  deriving DecidableEq

def AGENT_ID : JsString := JsString.ofString "a1"

def AGENT_COLOR : Nat := 1

def AGENT_PREFIX : JsString := JsString.ofString "Agent · "

section participants

variable {τ γ : Type}

def personOf (who : PresenceParticipant τ γ) : PresenceParticipant τ γ :=
  { who with touch := .absent, gesture := none }

/-- The agent while it runs a command. -/
def agentOf (command : JsString) : PresenceParticipant τ γ where
  id := AGENT_ID
  kind := .agent
  name := AGENT_PREFIX ++ command
  color := AGENT_COLOR
  viewOnly := false
  touch := .absent
  gesture := none

def PresenceParticipant.gesturing (participant : PresenceParticipant τ γ) (gesture : Option γ) :
    PresenceParticipant τ γ :=
  { participant with gesture := gesture }

def PresenceParticipant.leaving (participant : PresenceParticipant τ γ) :
    PresenceParticipant τ γ :=
  { participant with touch := .left }

end participants

/-! ## Devices -/

abbrev Ref := Nat

abbrev Timer := Nat

abbrev Subscription := Nat

structure Device (τ γ : Type) where
  listeners : List Subscription
  agent : Option (PresenceParticipant τ γ)
  leave : Option Timer
  people : OrderedMap JsString (PresenceParticipant τ γ)
  moves : OrderedMap JsString (PresenceParticipant τ γ)
  flush : Option Timer

/-- What a timer runs when it fires. -/
inductive Callback (τ γ : Type) where
  | leave (device : Ref) (participant : PresenceParticipant τ γ)
  | flush (device : Ref)

structure Hub (τ γ : Type) where
  /-- the object that `devices` holds under the key -/
  devices : Option Ref
  heap : Ref → Device τ γ
  /-- how many device objects there were -/
  made : Nat
  timers : List (Timer × Callback τ γ)
  /-- how many timers were set -/
  timersSet : Nat
  /-- the object that each subscription's end refers to -/
  subscriptions : List Ref
  /-- the calls of listeners, oldest first -/
  delivered : List (Subscription × List (PresenceParticipant τ γ))

variable {τ γ : Type}

def Device.empty : Device τ γ := ⟨[], none, none, OrderedMap.empty, OrderedMap.empty, none⟩

def Device.roster (device : Device τ γ) : List (PresenceParticipant τ γ) :=
  device.agent.toList ++ device.people.values

namespace Hub

def init : Hub τ γ := ⟨none, fun _ => Device.empty, 0, [], 0, [], []⟩

def update (hub : Hub τ γ) (ref : Ref) (change : Device τ γ → Device τ γ) : Hub τ γ :=
  { hub with heap := Function.update hub.heap ref (change (hub.heap ref)) }

/-- The device of the key, made where there is none. -/
def device (hub : Hub τ γ) : Ref × Hub τ γ :=
  match hub.devices with
  | some ref => (ref, hub)
  | none =>
      (hub.made,
        { hub with
          devices := some hub.made
          made := hub.made + 1
          heap := Function.update hub.heap hub.made Device.empty })

def clearTimeout (timer : Option Timer) (hub : Hub τ γ) : Hub τ γ :=
  match timer with
  | none => hub
  | some timer => { hub with timers := hub.timers.filter fun pending => pending.1 ≠ timer }

def setTimeout (callback : Callback τ γ) (hub : Hub τ γ) : Timer × Hub τ γ :=
  (hub.timersSet,
    { hub with
      timersSet := hub.timersSet + 1
      timers := hub.timers ++ [(hub.timersSet, callback)] })

def emit (ref : Ref) (participants : List (PresenceParticipant τ γ)) (hub : Hub τ γ) : Hub τ γ :=
  { hub with
    delivered := hub.delivered ++ (hub.heap ref).listeners.map fun listener =>
      (listener, participants) }

def forget (ref : Ref) (hub : Hub τ γ) : Hub τ γ :=
  let device := hub.heap ref
  if !device.listeners.isEmpty || device.agent.isSome || !device.people.entries.isEmpty then hub
  else { hub.clearTimeout device.flush with devices := none }

def flushMoves (ref : Ref) (hub : Hub τ γ) : Hub τ γ :=
  let cleared := (hub.clearTimeout (hub.heap ref).flush).update ref fun device =>
    { device with flush := none }
  let moves := (cleared.heap ref).moves
  if moves.entries.isEmpty then cleared
  else (cleared.update ref fun device => { device with moves := OrderedMap.empty }).emit ref
    moves.values

def subscribe (hub : Hub τ γ) : Hub τ γ :=
  let (ref, hub) := hub.device
  let listener := hub.subscriptions.length
  let hub := hub.update ref fun device =>
    { device with listeners := device.listeners ++ [listener] }
  { hub with
    subscriptions := hub.subscriptions ++ [ref]
    delivered := hub.delivered ++ [(listener, (hub.heap ref).roster)] }

/-- A call of the function that `subscribe` gave back. -/
def unsubscribe (listener : Subscription) (hub : Hub τ γ) : Hub τ γ :=
  match hub.subscriptions[listener]? with
  | none => hub
  | some ref =>
      (hub.update ref fun device =>
        { device with
          listeners := device.listeners.filter fun each => each ≠ listener }).forget ref

def agent (command : JsString) (gesture : Option γ) (hub : Hub τ γ) : Hub τ γ :=
  let (ref, hub) := hub.device
  let hub := hub.clearTimeout (hub.heap ref).leave
  let participant : PresenceParticipant τ γ := agentOf command
  let hub := hub.update ref fun device => { device with leave := none, agent := some participant }
  let hub := hub.emit ref [participant.gesturing gesture]
  let (timer, hub) := hub.setTimeout (.leave ref participant)
  hub.update ref fun device => { device with leave := some timer }

def join (who : PresenceParticipant τ γ) (hub : Hub τ γ) : Hub τ γ :=
  let (ref, hub) := hub.device
  let person := personOf who
  let hub := hub.update ref fun device => { device with people := device.people.set who.id person }
  (hub.flushMoves ref).emit ref [person]

/-- `device.flush ??= setTimeout(...)` -/
def flushLater (ref : Ref) (hub : Hub τ γ) : Hub τ γ :=
  match (hub.heap ref).flush with
  | some _ => hub
  | none =>
      let (timer, hub) := hub.setTimeout (.flush ref)
      hub.update ref fun device => { device with flush := some timer }

def touch (who : PresenceParticipant τ γ) (touch : PresenceTouch τ) (hub : Hub τ γ) : Hub τ γ :=
  let (ref, hub) := hub.device
  let person := personOf who
  let hub := hub.update ref fun device => { device with people := device.people.set who.id person }
  let touching := { person with touch := .touched touch }
  if touch.phase = .move then
    (hub.update ref fun device =>
      { device with moves := device.moves.set who.id touching }).flushLater ref
  else (hub.flushMoves ref).emit ref [touching]

def leave (id : JsString) (hub : Hub τ γ) : Hub τ γ :=
  match hub.devices with
  | none => hub
  | some ref =>
      match (hub.heap ref).people.get id with
      | none => hub
      | some person =>
          let hub := (hub.flushMoves ref).update ref fun device =>
            { device with people := device.people.delete id }
          (hub.emit ref [person.leaving]).forget ref

def call (hub : Hub τ γ) : Callback τ γ → Hub τ γ
  | .leave ref participant =>
      let hub := hub.update ref fun device => { device with leave := none, agent := none }
      (hub.emit ref [participant.leaving]).forget ref
  | .flush ref => hub.flushMoves ref

/-- A timer that is set fires. -/
def fires (timer : Timer) (hub : Hub τ γ) : Hub τ γ :=
  match hub.timers.find? fun pending => decide (pending.1 = timer) with
  | none => hub
  | some (_, callback) => (hub.clearTimeout (some timer)).call callback

end Hub

/-- A call of the hub, or a timer. -/
inductive Act (τ γ : Type) where
  | subscribe
  | unsubscribe (listener : Subscription)
  | agent (command : JsString) (gesture : Option γ)
  | join (who : PresenceParticipant τ γ)
  | touch (who : PresenceParticipant τ γ) (touch : PresenceTouch τ)
  | leave (id : JsString)
  | fires (timer : Timer)
  deriving DecidableEq

def Hub.step (hub : Hub τ γ) : Act τ γ → Hub τ γ
  | .subscribe => hub.subscribe
  | .unsubscribe listener => hub.unsubscribe listener
  | .agent command gesture => hub.agent command gesture
  | .join who => hub.join who
  | .touch who touch => hub.touch who touch
  | .leave id => hub.leave id
  | .fires timer => hub.fires timer

def Hub.run (acts : List (Act τ γ)) : Hub τ γ := acts.foldl Hub.step Hub.init

end Stim.Presence
