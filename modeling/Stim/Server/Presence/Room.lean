import Stim.Server.Presence

/-!
# A room

What the hub is for, without its device objects and timers: a room with the agent, the people and
their moves that wait to be sent.  A change publishes at most one update, and what a listener
receives of one participant are that participant's updates, less some moves.
-/

namespace Stim.Presence

variable {τ γ : Type}

structure Room (τ γ : Type) where
  listeners : List Subscription
  agent : Option (PresenceParticipant τ γ)
  people : OrderedMap JsString (PresenceParticipant τ γ)
  moves : OrderedMap JsString (PresenceParticipant τ γ)
  /-- how many subscriptions there were -/
  subscribed : Nat
  delivered : List (Subscription × List (PresenceParticipant τ γ))

/-- A change of the room; the timers' callbacks are the last two. -/
inductive Change (τ γ : Type) where
  | nothing
  | subscribe
  | unsubscribe (listener : Subscription)
  | agent (command : JsString) (gesture : Option γ)
  | join (who : PresenceParticipant τ γ)
  | touch (who : PresenceParticipant τ γ) (touch : PresenceTouch τ)
  | leave (id : JsString)
  | agentLeaves
  | flush

/-- The human whom a change brings. -/
def Change.who : Change τ γ → Option (PresenceParticipant τ γ)
  | .nothing => none
  | .subscribe => none
  | .unsubscribe _ => none
  | .agent _ _ => none
  | .join who => some who
  | .touch who _ => some who
  | .leave _ => none
  | .agentLeaves => none
  | .flush => none

namespace Room

def empty : Room τ γ := ⟨[], none, OrderedMap.empty, OrderedMap.empty, 0, []⟩

def roster (room : Room τ γ) : List (PresenceParticipant τ γ) :=
  room.agent.toList ++ room.people.values

/-- Who of the room has an id. -/
def standing (room : Room τ γ) (id : JsString) : Option (PresenceParticipant τ γ) :=
  if id = AGENT_ID then room.agent else room.people.get id

def emit (participants : List (PresenceParticipant τ γ)) (room : Room τ γ) : Room τ γ :=
  { room with
    delivered := room.delivered ++ room.listeners.map fun listener => (listener, participants) }

def flushMoves (room : Room τ γ) : Room τ γ :=
  if room.moves.entries.isEmpty then room
  else { room with moves := OrderedMap.empty }.emit room.moves.values

def join (who : PresenceParticipant τ γ) (room : Room τ γ) : Room τ γ :=
  ({ room with people := room.people.set who.id (personOf who) }.flushMoves).emit [personOf who]

def touching (who : PresenceParticipant τ γ) (touch : PresenceTouch τ) : PresenceParticipant τ γ :=
  { personOf who with touch := .touched touch }

def touch (who : PresenceParticipant τ γ) (touch : PresenceTouch τ) (room : Room τ γ) : Room τ γ :=
  let joined := { room with people := room.people.set who.id (personOf who) }
  if touch.phase = .move then
    { joined with moves := room.moves.set who.id (touching who touch) }
  else joined.flushMoves.emit [touching who touch]

def leave (id : JsString) (room : Room τ γ) : Room τ γ :=
  match room.people.get id with
  | none => room
  | some person =>
      { room.flushMoves with people := room.people.delete id }.emit [person.leaving]

def agentLeaves (room : Room τ γ) : Room τ γ :=
  match room.agent with
  | none => room
  | some participant => { room with agent := none }.emit [participant.leaving]

def step (room : Room τ γ) : Change τ γ → Room τ γ
  | .nothing => room
  | .subscribe =>
      { room with
        listeners := room.listeners ++ [room.subscribed]
        subscribed := room.subscribed + 1
        delivered := room.delivered ++ [(room.subscribed, room.roster)] }
  | .unsubscribe listener =>
      { room with listeners := room.listeners.filter fun each => each ≠ listener }
  | .agent command gesture =>
      { room with agent := some (agentOf command) }.emit
        [(agentOf command).gesturing gesture]
  | .join who => room.join who
  | .touch who touch => room.touch who touch
  | .leave id => room.leave id
  | .agentLeaves => room.agentLeaves
  | .flush => room.flushMoves

/-- The update that a change publishes. -/
def published (room : Room τ γ) : Change τ γ → Option (PresenceParticipant τ γ)
  | .nothing => none
  | .subscribe => none
  | .unsubscribe _ => none
  | .agent command gesture => some ((agentOf command).gesturing gesture)
  | .join who => some (personOf who)
  | .touch who touch => some (touching who touch)
  | .leave id => (room.people.get id).map PresenceParticipant.leaving
  | .agentLeaves => room.agent.map PresenceParticipant.leaving
  | .flush => none

/-- What a listener was called with, oldest first. -/
def received (room : Room τ γ) (listener : Subscription) : List (List (PresenceParticipant τ γ)) :=
  (room.delivered.filter fun delivery => decide (delivery.1 = listener)).map Prod.snd

end Room

/-! ## What a listener hears of one participant -/

def PresenceParticipant.isMove (participant : PresenceParticipant τ γ) : Bool :=
  match participant.touch with
  | .touched touch => decide (touch.phase = .move)
  | .absent => false
  | .left => false

/-- Who an update leaves of its participant. -/
def PresenceParticipant.stays (participant : PresenceParticipant τ γ) :
    Option (PresenceParticipant τ γ) :=
  match participant.touch with
  | .left => none
  | .absent => some (personOf participant)
  | .touched _ => some (personOf participant)

/-- One participant: whether it stands on the roster, its move that waits, and what a listener
heard of it. -/
structure Seen (τ γ : Type) where
  standing : Option (PresenceParticipant τ γ)
  pending : Option (PresenceParticipant τ γ)
  heard : List (PresenceParticipant τ γ)

/-- What a change does for a participant, by the update that it publishes of it. -/
inductive Seen.Step : Seen τ γ → Option (PresenceParticipant τ γ) → Seen τ γ → Prop where
  | same (seen : Seen τ γ) : Step seen none seen
  | flushed (seen : Seen τ γ) :
      Step seen none ⟨seen.standing, none, seen.heard ++ seen.pending.toList⟩
  | moved (seen : Seen τ γ) (update : PresenceParticipant τ γ) (hMove : update.isMove = true) :
      Step seen (some update) ⟨update.stays, some update, seen.heard⟩
  | told (seen : Seen τ γ) (update : PresenceParticipant τ γ) (hMove : update.isMove = false) :
      Step seen (some update)
        ⟨update.stays, none, seen.heard ++ seen.pending.toList ++ [update]⟩

namespace Room

/-- What a listener heard of a participant, with the roster it was given. -/
def heard (room : Room τ γ) (listener : Subscription) (id : JsString) :
    List (PresenceParticipant τ γ) :=
  (room.received listener).flatten.filter fun participant => decide (participant.id = id)

def seen (room : Room τ γ) (listener : Subscription) (id : JsString) : Seen τ γ :=
  ⟨room.standing id, room.moves.get id, room.heard listener id⟩

/-- People and moves stand under their own ids, a waiting move is of who is in the room, and
listeners are subscriptions. -/
structure Sound (room : Room τ γ) : Prop where
  agent : ∀ participant, room.agent = some participant →
    participant.id = AGENT_ID ∧ personOf participant = participant
  people : ∀ id person, room.people.get id = some person →
    person.id = id ∧ id ≠ AGENT_ID ∧ personOf person = person
  moves : ∀ id move, room.moves.get id = some move →
    move.id = id ∧ move.isMove = true ∧ room.people.get id = some (personOf move)
  listeners_nodup : room.listeners.Nodup
  listeners_lt : ∀ listener ∈ room.listeners, listener < room.subscribed
  delivered_lt : ∀ delivery ∈ room.delivered, delivery.1 < room.subscribed

theorem sound_empty : (empty : Room τ γ).Sound where
  agent := nofun
  people := nofun
  moves := nofun
  listeners_nodup := List.nodup_nil
  listeners_lt := nofun
  delivered_lt := nofun

/-! ## Emitting -/

section emit

variable {room : Room τ γ} {listener : Subscription} {id : JsString}
  {participants : List (PresenceParticipant τ γ)}

theorem filter_map_listeners {listeners : List Subscription} (hNodup : listeners.Nodup)
    (hMem : listener ∈ listeners) :
    ((listeners.map fun each => (each, participants)).filter fun delivery =>
      decide (delivery.1 = listener)) = [(listener, participants)] := by
  rw [List.filter_map]
  have hOne : (listeners.filter fun each => decide (each = listener)) = [listener] := by
    rw [List.filter_eq, List.count_eq_one_of_mem hNodup hMem]
    rfl
  exact congrArg (List.map fun each => (each, participants)) hOne

theorem received_emit (hRoom : room.listeners.Nodup) (hListener : listener ∈ room.listeners) :
    (room.emit participants).received listener = room.received listener ++ [participants] := by
  unfold received emit
  dsimp only
  rw [List.filter_append, List.map_append, filter_map_listeners hRoom hListener]
  rfl

theorem heard_emit (room : Room τ γ) (hRoom : room.listeners.Nodup)
    (hListener : listener ∈ room.listeners) :
    (room.emit participants).heard listener id = room.heard listener id ++
      participants.filter fun participant => decide (participant.id = id) := by
  unfold heard
  rw [received_emit hRoom hListener, List.flatten_append, List.filter_append]
  simp

theorem get_moves_flushMoves : room.flushMoves.moves.get id = none := by
  unfold flushMoves
  split
  · rename_i hEmpty
    rw [OrderedMap.get, List.isEmpty_iff.mp hEmpty]
    rfl
  · rfl

theorem flushMoves_fields (room : Room τ γ) :
    room.flushMoves.listeners = room.listeners ∧ room.flushMoves.agent = room.agent ∧
      room.flushMoves.people = room.people ∧ room.flushMoves.subscribed = room.subscribed := by
  unfold flushMoves
  split
  · exact ⟨rfl, rfl, rfl, rfl⟩
  · exact ⟨rfl, rfl, rfl, rfl⟩

/-- A flush sends a participant's move that waits. -/
theorem heard_flushMoves (hRoom : room.listeners.Nodup)
    (hMoves : ∀ id move, room.moves.get id = some move → move.id = id)
    (hListener : listener ∈ room.listeners) :
    room.flushMoves.heard listener id =
      room.heard listener id ++ (room.moves.get id).toList := by
  have hValues := room.moves.filter_values hMoves id
  unfold flushMoves
  split
  · rename_i hEmpty
    rw [OrderedMap.get, List.isEmpty_iff.mp hEmpty]
    simp
  · rw [← hValues]
    exact heard_emit { room with moves := OrderedMap.empty } hRoom hListener

end emit

/-! ## Changes -/

section changes

variable {room : Room τ γ}

theorem delivered_emit_lt (room : Room τ γ) {participants : List (PresenceParticipant τ γ)}
    (hListeners : ∀ listener ∈ room.listeners, listener < room.subscribed)
    (hDelivered : ∀ delivery ∈ room.delivered, delivery.1 < room.subscribed) :
    ∀ delivery ∈ (room.emit participants).delivered, delivery.1 < room.subscribed := by
  intro delivery hMem
  rcases List.mem_append.mp hMem with hOld | hNew
  · exact hDelivered delivery hOld
  · obtain ⟨listener, hListener, rfl⟩ := List.mem_map.mp hNew
    exact hListeners listener hListener

theorem delivered_flushMoves_lt
    (hListeners : ∀ listener ∈ room.listeners, listener < room.subscribed)
    (hDelivered : ∀ delivery ∈ room.delivered, delivery.1 < room.subscribed) :
    ∀ delivery ∈ room.flushMoves.delivered, delivery.1 < room.subscribed := by
  unfold flushMoves
  split
  · exact hDelivered
  · exact delivered_emit_lt { room with moves := OrderedMap.empty } hListeners hDelivered

theorem Sound.flushMoves (h : room.Sound) : room.flushMoves.Sound := by
  obtain ⟨hListeners, hAgent, hPeople, hSubscribed⟩ := room.flushMoves_fields
  constructor
  case agent => rw [hAgent]; exact h.agent
  case people => rw [hPeople]; exact h.people
  case moves =>
    intro id move hMove
    rw [get_moves_flushMoves] at hMove
    cases hMove
  case listeners_nodup => rw [hListeners]; exact h.listeners_nodup
  case listeners_lt => rw [hListeners, hSubscribed]; exact h.listeners_lt
  case delivered_lt =>
    rw [hSubscribed]
    exact delivered_flushMoves_lt h.listeners_lt h.delivered_lt

theorem Sound.emit (h : room.Sound) (participants : List (PresenceParticipant τ γ)) :
    (room.emit participants).Sound where
  agent := h.agent
  people := h.people
  moves := h.moves
  listeners_nodup := h.listeners_nodup
  listeners_lt := h.listeners_lt
  delivered_lt := delivered_emit_lt room h.listeners_lt h.delivered_lt

/-- A human enters, or is there, and the moves that wait are sent. -/
theorem Sound.entered (h : room.Sound) {who : PresenceParticipant τ γ} (hWho : who.id ≠ AGENT_ID) :
    ({ room with people := room.people.set who.id (personOf who) }.flushMoves).Sound := by
  obtain ⟨hListeners, hAgent, hPeople, hSubscribed⟩ :=
    flushMoves_fields { room with people := room.people.set who.id (personOf who) }
  constructor
  case agent => rw [hAgent]; exact h.agent
  case people =>
    rw [hPeople]
    intro id person hPerson
    rw [OrderedMap.get_set] at hPerson
    split at hPerson
    · rename_i hId
      cases hPerson
      subst hId
      exact ⟨rfl, hWho, rfl⟩
    · exact h.people id person hPerson
  case moves =>
    intro id move hMove
    rw [get_moves_flushMoves] at hMove
    cases hMove
  case listeners_nodup => rw [hListeners]; exact h.listeners_nodup
  case listeners_lt => rw [hListeners, hSubscribed]; exact h.listeners_lt
  case delivered_lt =>
    rw [hSubscribed]
    exact delivered_flushMoves_lt h.listeners_lt h.delivered_lt

theorem Sound.moved (h : room.Sound) {who : PresenceParticipant τ γ} (hWho : who.id ≠ AGENT_ID)
    {touch : PresenceTouch τ} (hTouch : touch.phase = .move) :
    Sound { room with
      people := room.people.set who.id (personOf who)
      moves := room.moves.set who.id (touching who touch) } where
  agent := h.agent
  people := by
    intro id person hPerson
    rw [OrderedMap.get_set] at hPerson
    split at hPerson
    · rename_i hId
      cases hPerson
      subst hId
      exact ⟨rfl, hWho, rfl⟩
    · exact h.people id person hPerson
  moves := by
    intro id move hMove
    rw [OrderedMap.get_set] at hMove ⊢
    split at hMove
    · rename_i hId
      cases hMove
      subst hId
      exact ⟨rfl, by simpa [touching, PresenceParticipant.isMove] using hTouch, if_pos rfl⟩
    · rename_i hId
      rw [if_neg hId]
      exact h.moves id move hMove
  listeners_nodup := h.listeners_nodup
  listeners_lt := h.listeners_lt
  delivered_lt := h.delivered_lt

theorem Sound.left (h : room.Sound) (hMoves : ∀ id, room.moves.get id = none) (id : JsString) :
    Sound { room with people := room.people.delete id } where
  agent := h.agent
  people := by
    intro other person hPerson
    by_cases hId : other = id
    · rw [hId, OrderedMap.get_delete_self] at hPerson
      cases hPerson
    · rw [OrderedMap.get_delete_of_ne hId] at hPerson
      exact h.people other person hPerson
  moves := by
    intro other move hMove
    rw [hMoves other] at hMove
    cases hMove
  listeners_nodup := h.listeners_nodup
  listeners_lt := h.listeners_lt
  delivered_lt := h.delivered_lt

theorem Sound.subscribe (h : room.Sound) : (room.step .subscribe).Sound where
  agent := h.agent
  people := h.people
  moves := h.moves
  listeners_nodup := by
    refine List.nodup_append.mpr ⟨h.listeners_nodup, List.nodup_singleton _, ?_⟩
    intro listener hListener new hNew
    have hLt := h.listeners_lt listener hListener
    rw [List.mem_singleton.mp hNew]
    exact Nat.ne_of_lt hLt
  listeners_lt := by
    intro listener hListener
    rcases List.mem_append.mp hListener with hOld | hNew
    · exact Nat.lt_succ_of_lt (h.listeners_lt listener hOld)
    · rw [List.mem_singleton.mp hNew]
      exact Nat.lt_succ_self _
  delivered_lt := by
    intro delivery hDelivery
    rcases List.mem_append.mp hDelivery with hOld | hNew
    · exact Nat.lt_succ_of_lt (h.delivered_lt delivery hOld)
    · rw [List.mem_singleton.mp hNew]
      exact Nat.lt_succ_self _

theorem Sound.step (h : room.Sound) {change : Change τ γ}
    (hWho : ∀ who, change.who = some who → who.id ≠ AGENT_ID) : (room.step change).Sound := by
  cases change with
  | nothing => exact h
  | subscribe => exact h.subscribe
  | unsubscribe listener =>
      exact {
        agent := h.agent
        people := h.people
        moves := h.moves
        listeners_nodup := h.listeners_nodup.filter _
        listeners_lt := fun each hMem => h.listeners_lt each (List.mem_of_mem_filter hMem)
        delivered_lt := h.delivered_lt }
  | agent command gesture =>
      refine @Sound.emit _ _ { room with agent := some (agentOf command) } ?_ _
      refine { h with agent := ?_ }
      intro participant hAgent
      cases hAgent
      exact ⟨rfl, rfl⟩
  | join who => exact (h.entered (hWho who rfl)).emit _
  | touch who touch =>
      dsimp only [Room.step, Room.touch]
      split
      · rename_i hTouch
        exact h.moved (hWho who rfl) hTouch
      · exact (h.entered (hWho who rfl)).emit _
  | leave id =>
      dsimp only [Room.step, Room.leave]
      split
      · exact h
      · have hLeft := h.flushMoves.left (fun _ => get_moves_flushMoves) id
        rw [room.flushMoves_fields.2.2.1] at hLeft
        exact hLeft.emit _
  | agentLeaves =>
      dsimp only [Room.step, Room.agentLeaves]
      split
      · exact h
      · refine @Sound.emit _ _ { room with agent := none } ?_ _
        exact { h with agent := nofun }
  | flush => exact h.flushMoves

end changes

/-! ## What a change does for one participant -/

section seen

variable {room : Room τ γ} {listener : Subscription} {id : JsString}

/-- The update of a participant that a change publishes. -/
def publishedOf (room : Room τ γ) (id : JsString) (change : Change τ γ) :
    Option (PresenceParticipant τ γ) :=
  (room.published change).filter fun update => decide (update.id = id)

theorem seen_emit (room : Room τ γ) (id : JsString) (hRoom : room.listeners.Nodup)
    (hListener : listener ∈ room.listeners) (participants : List (PresenceParticipant τ γ)) :
    (room.emit participants).seen listener id =
      ⟨room.standing id, room.moves.get id, room.heard listener id ++
        participants.filter fun participant => decide (participant.id = id)⟩ := by
  unfold seen
  rw [heard_emit room hRoom hListener]
  rfl

theorem seen_flushMoves (room : Room τ γ) (id : JsString) (hRoom : room.listeners.Nodup)
    (hMoves : ∀ id move, room.moves.get id = some move → move.id = id)
    (hListener : listener ∈ room.listeners) :
    room.flushMoves.seen listener id =
      ⟨room.standing id, none, room.heard listener id ++ (room.moves.get id).toList⟩ := by
  obtain ⟨-, hAgent, hPeople, -⟩ := room.flushMoves_fields
  unfold seen standing
  rw [get_moves_flushMoves, heard_flushMoves hRoom hMoves hListener, hAgent, hPeople]

/-- A human's update that is sent at once, after the moves that wait. -/
theorem seen_entered (h : room.Sound) (hListener : listener ∈ room.listeners)
    {who update : PresenceParticipant τ γ} (hWho : who.id ≠ AGENT_ID) (hId : update.id = who.id)
    (hMove : update.isMove = false) (hStays : update.stays = some (personOf who)) :
    Seen.Step (room.seen listener id) ((some update).filter fun update => decide (update.id = id))
      ((({ room with people := room.people.set who.id (personOf who) }.flushMoves).emit
        [update]).seen listener id) := by
  have hFields :=
    flushMoves_fields { room with people := room.people.set who.id (personOf who) }
  have hMoves : ∀ id move, room.moves.get id = some move → move.id = id := by
    intro id move hMove
    exact (h.moves id move hMove).1
  have hFlush := seen_flushMoves { room with people := room.people.set who.id (personOf who) } id
    h.listeners_nodup hMoves hListener
  rw [seen_emit _ _ (by rw [hFields.1]; exact h.listeners_nodup)
    (by rw [hFields.1]; exact hListener)]
  rw [seen, Seen.mk.injEq] at hFlush
  rw [hFlush.1, hFlush.2.1, hFlush.2.2]
  by_cases hSame : update.id = id
  · have hStanding : Room.standing
        { room with people := room.people.set who.id (personOf who) } id = update.stays := by
      rw [hStays, ← hSame, hId, standing, if_neg hWho]
      exact OrderedMap.get_set_self
    simp only [hSame, Option.filter_some, decide_true, if_true, List.filter_cons_of_pos,
      List.filter_nil, hStanding]
    exact .told (room.seen listener id) update hMove
  · have hStanding : Room.standing
        { room with people := room.people.set who.id (personOf who) } id = room.standing id := by
      unfold standing
      split
      · rfl
      · exact OrderedMap.get_set_of_ne fun hEq => hSame (hId.trans hEq.symm)
    simp only [hSame, Option.filter_some, decide_false, Bool.false_eq_true, if_false,
      not_false_eq_true, List.filter_cons_of_neg, List.filter_nil, List.append_nil, hStanding]
    exact .flushed (room.seen listener id)

/-- A move waits. -/
theorem seen_moved {who : PresenceParticipant τ γ} (hWho : who.id ≠ AGENT_ID)
    {touch : PresenceTouch τ} (hTouch : touch.phase = .move) :
    Seen.Step (room.seen listener id)
      ((some (touching who touch)).filter fun update => decide (update.id = id))
      (Room.seen { room with
        people := room.people.set who.id (personOf who)
        moves := room.moves.set who.id (touching who touch) } listener id) := by
  have hName : (touching who touch).id = who.id := rfl
  by_cases hId : who.id = id
  · have hSeen : Room.seen { room with
        people := room.people.set who.id (personOf who)
        moves := room.moves.set who.id (touching who touch) } listener id =
        ⟨(touching who touch).stays, some (touching who touch), room.heard listener id⟩ := by
      subst hId
      simp only [seen, standing, hWho, if_false, OrderedMap.get_set_self, Seen.mk.injEq,
        true_and]
      exact ⟨rfl, rfl⟩
    rw [hSeen, Option.filter_some, hName, decide_eq_true hId, if_pos rfl]
    refine .moved (room.seen listener id) _ ?_
    simpa [touching, PresenceParticipant.isMove] using hTouch
  · have hSeen : Room.seen { room with
        people := room.people.set who.id (personOf who)
        moves := room.moves.set who.id (touching who touch) } listener id =
        room.seen listener id := by
      simp only [seen, standing, OrderedMap.get_set_of_ne (Ne.symm hId)]
      rfl
    rw [hSeen, Option.filter_some, hName, decide_eq_false hId]
    exact .same (room.seen listener id)

theorem get_people_agent (h : room.Sound) : room.people.get AGENT_ID = none := by
  cases hPerson : room.people.get AGENT_ID with
  | none => rfl
  | some person => exact absurd rfl (h.people AGENT_ID person hPerson).2.1

/-- The agent has no moves. -/
theorem get_moves_agent (h : room.Sound) : room.moves.get AGENT_ID = none := by
  cases hMove : room.moves.get AGENT_ID with
  | none => rfl
  | some move =>
      have hPerson := (h.moves AGENT_ID move hMove).2.2
      rw [get_people_agent h] at hPerson
      cases hPerson

/-- An update of the agent, which is sent at once. -/
theorem seen_agent (h : room.Sound) (hListener : listener ∈ room.listeners)
    {agent : Option (PresenceParticipant τ γ)} {update : PresenceParticipant τ γ}
    (hId : update.id = AGENT_ID) (hMove : update.isMove = false) (hStays : update.stays = agent) :
    Seen.Step (room.seen listener id) ((some update).filter fun update => decide (update.id = id))
      (({ room with agent := agent }.emit [update]).seen listener id) := by
  have hSeen := seen_emit { room with agent := agent } id h.listeners_nodup
    hListener [update]
  rw [hSeen]
  by_cases hSame : update.id = id
  · rw [Option.filter_some, decide_eq_true hSame, if_pos rfl,
      List.filter_cons_of_pos (by simpa using hSame), List.filter_nil]
    have hTold := Seen.Step.told (room.seen listener id) update hMove
    have hStanding : Room.standing { room with agent := agent } id = update.stays := by
      rw [hStays, ← hSame, hId]
      exact if_pos rfl
    have hPending : room.moves.get id = none := by
      rw [← hSame, hId]
      exact get_moves_agent h
    rw [hStanding]
    simp only [seen, hPending, Option.toList_none, List.append_nil] at hTold ⊢
    exact hTold
  · have hOther : id ≠ AGENT_ID := by
      intro hAgent
      exact hSame (hId.trans hAgent.symm)
    rw [Option.filter_some, decide_eq_false hSame, List.filter_cons_of_neg (by simpa using hSame),
      List.filter_nil, List.append_nil]
    have hStanding : Room.standing { room with agent := agent } id = room.standing id := by
      rw [standing, standing, if_neg hOther, if_neg hOther]
    rw [hStanding]
    exact .same (room.seen listener id)

theorem seen_leave (h : room.Sound) (hListener : listener ∈ room.listeners) (leaving : JsString) :
    Seen.Step (room.seen listener id) (room.publishedOf id (.leave leaving))
      ((room.leave leaving).seen listener id) := by
  unfold publishedOf
  dsimp only [published, Room.leave]
  cases hPerson : room.people.get leaving with
  | none => exact .same _
  | some person =>
      obtain ⟨hName, hHuman, -⟩ := h.people leaving person hPerson
      obtain ⟨hListeners, hAgent, hPeople, -⟩ := room.flushMoves_fields
      have hMoves : ∀ id move, room.moves.get id = some move → move.id = id := by
        intro id move hMove
        exact (h.moves id move hMove).1
      have hFlush := room.seen_flushMoves id h.listeners_nodup hMoves hListener
      rw [seen, Seen.mk.injEq] at hFlush
      have hSeen := seen_emit { room.flushMoves with people := room.people.delete leaving } id
        (by rw [hListeners]; exact h.listeners_nodup) (by rw [hListeners]; exact hListener)
        [person.leaving]
      have hHeard : Room.heard { room.flushMoves with people := room.people.delete leaving }
          listener id = room.flushMoves.heard listener id := rfl
      dsimp only
      rw [hSeen, hFlush.2.1, hHeard, hFlush.2.2, Option.map_some, Option.filter_some]
      have hLeaving : person.leaving.id = leaving := hName
      by_cases hSame : leaving = id
      · have hStanding : Room.standing
            { room.flushMoves with people := room.people.delete leaving } id =
            person.leaving.stays := by
          subst hSame
          rw [standing, if_neg hHuman]
          exact OrderedMap.get_delete_self
        rw [hStanding, hLeaving, decide_eq_true hSame, if_pos rfl,
          List.filter_cons_of_pos (by simpa [hLeaving] using hSame), List.filter_nil]
        exact .told (room.seen listener id) person.leaving rfl
      · have hStanding : Room.standing
            { room.flushMoves with people := room.people.delete leaving } id =
            room.standing id := by
          unfold standing
          rw [hAgent]
          split
          · rfl
          · exact OrderedMap.get_delete_of_ne fun hEq => hSame hEq.symm
        rw [hStanding, hLeaving, decide_eq_false hSame,
          List.filter_cons_of_neg (by simpa [hLeaving] using hSame), List.filter_nil,
          List.append_nil]
        exact .flushed (room.seen listener id)

theorem seen_subscribe (h : room.Sound) (hListener : listener ∈ room.listeners) :
    (room.step .subscribe).seen listener id = room.seen listener id := by
  have hNe : room.subscribed ≠ listener := Nat.ne_of_gt (h.listeners_lt listener hListener)
  unfold seen
  congr 1
  unfold heard received Room.step
  dsimp only
  rw [List.filter_append, List.filter_cons_of_neg (by simpa using hNe), List.filter_nil,
    List.append_nil]

/-- A listener hears of each participant what the change publishes of it, less moves that wait. -/
theorem seen_step (h : room.Sound) (hListener : listener ∈ room.listeners) {change : Change τ γ}
    (hWho : ∀ who, change.who = some who → who.id ≠ AGENT_ID) :
    Seen.Step (room.seen listener id) (room.publishedOf id change)
      ((room.step change).seen listener id) := by
  cases change with
  | nothing => exact .same _
  | subscribe =>
      rw [seen_subscribe h hListener]
      exact .same _
  | unsubscribe other => exact .same _
  | agent command gesture => exact seen_agent h hListener rfl rfl rfl
  | join who => exact seen_entered h hListener (hWho who rfl) rfl rfl rfl
  | touch who touch =>
      dsimp only [Room.step, Room.touch, publishedOf, published]
      split
      · rename_i hTouch
        exact seen_moved (hWho who rfl) hTouch
      · rename_i hTouch
        refine seen_entered h hListener (hWho who rfl) rfl ?_ rfl
        simpa [touching, PresenceParticipant.isMove] using hTouch
  | leave leaving => exact seen_leave h hListener leaving
  | agentLeaves =>
      unfold publishedOf
      dsimp only [Room.step, Room.agentLeaves, published]
      cases hAgent : room.agent with
      | none => exact .same _
      | some agent => exact seen_agent h hListener (h.agent agent hAgent).1 rfl rfl
  | flush =>
      have hMoves : ∀ id move, room.moves.get id = some move → move.id = id := by
        intro id move hMove
        exact (h.moves id move hMove).1
      have hFlush := room.seen_flushMoves id h.listeners_nodup hMoves hListener
      dsimp only [Room.step]
      rw [hFlush]
      exact .flushed (room.seen listener id)

theorem mem_listeners_flushMoves (hListener : listener ∈ room.listeners) :
    listener ∈ room.flushMoves.listeners := by
  rw [room.flushMoves_fields.1]
  exact hListener

theorem mem_listeners_step (hListener : listener ∈ room.listeners) {change : Change τ γ}
    (hOpen : change ≠ .unsubscribe listener) : listener ∈ (room.step change).listeners := by
  cases change with
  | nothing => exact hListener
  | subscribe => exact List.mem_append_left _ hListener
  | unsubscribe other =>
      refine List.mem_filter.mpr ⟨hListener, decide_eq_true ?_⟩
      rintro rfl
      exact hOpen rfl
  | agent command gesture => exact hListener
  | join who =>
      dsimp only [Room.step, Room.join, Room.emit]
      exact mem_listeners_flushMoves hListener
  | touch who touch =>
      dsimp only [Room.step, Room.touch, Room.emit]
      split
      · exact hListener
      · exact mem_listeners_flushMoves hListener
  | leave leaving =>
      dsimp only [Room.step, Room.leave, Room.emit]
      split
      · exact hListener
      · exact mem_listeners_flushMoves hListener
  | agentLeaves =>
      dsimp only [Room.step, Room.agentLeaves]
      split
      · exact hListener
      · exact hListener
  | flush => exact mem_listeners_flushMoves hListener

end seen

end Room

end Stim.Presence
