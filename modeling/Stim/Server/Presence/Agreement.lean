import Mathlib.Data.List.Induction
import Stim.Server.Presence.Devices

/-!
# Subscribers agree with the hub

What a subscriber holds after its events is who the hub holds, and its events of a participant are
the updates of that participant in order, less some moves.
-/

namespace Stim.Presence

variable {τ γ : Type}

/-! ## What a subscriber holds -/

/-- An event that leaves a participant removes it, any other puts it. -/
def apply (held : JsString → Option (PresenceParticipant τ γ))
    (event : PresenceParticipant τ γ) : JsString → Option (PresenceParticipant τ γ) :=
  Function.update held event.id (match event.touch with
    | .left => none
    | .absent => some event
    | .touched _ => some event)

/-- What a subscriber holds that starts from a roster and applies each event. -/
def holds (roster events : List (PresenceParticipant τ γ)) :
    JsString → Option (PresenceParticipant τ γ) :=
  (roster ++ events).foldl apply fun _ => none

/-- Who the last update of a participant leaves. -/
def lastly (updates : List (PresenceParticipant τ γ)) : Option (PresenceParticipant τ γ) :=
  updates.getLast?.bind PresenceParticipant.stays

theorem foldl_apply (events : List (PresenceParticipant τ γ)) (id : JsString) :
    (events.foldl apply (fun _ => none) id).map personOf =
      lastly (events.filter fun event => decide (event.id = id)) := by
  induction events using List.reverseRecOn with
  | nil => rfl
  | append_singleton events event ih =>
      rw [List.foldl_append, List.foldl_cons, List.foldl_nil, List.filter_append]
      unfold apply
      by_cases hId : event.id = id
      · subst hId
        rw [Function.update_self, List.filter_cons_of_pos (by simp), List.filter_nil, lastly,
          List.getLast?_concat, Option.bind_some, PresenceParticipant.stays]
        cases event.touch <;> rfl
      · rw [Function.update_of_ne (Ne.symm hId), List.filter_cons_of_neg (by simpa using hId),
          List.filter_nil, List.append_nil]
        exact ih

/-! ## Updates less moves -/

/-- The second list less some moves. -/
inductive Thinned : List (PresenceParticipant τ γ) → List (PresenceParticipant τ γ) → Prop where
  | nil : Thinned [] []
  | keep (update : PresenceParticipant τ γ) {kept all : List (PresenceParticipant τ γ)}
      (h : Thinned kept all) : Thinned (update :: kept) (update :: all)
  | drop (move : PresenceParticipant τ γ) {kept all : List (PresenceParticipant τ γ)}
      (hMove : move.isMove = true) (h : Thinned kept all) : Thinned kept (move :: all)

variable {kept all : List (PresenceParticipant τ γ)}

theorem Thinned.append_left (h : Thinned kept all) (front : List (PresenceParticipant τ γ)) :
    Thinned (front ++ kept) (front ++ all) := by
  induction front with
  | nil => exact h
  | cons update rest ih => exact .keep update ih

theorem Thinned.drop_left {kept all front : List (PresenceParticipant τ γ)} (h : Thinned kept all)
    (hFront : ∀ move ∈ front, move.isMove = true) : Thinned kept (front ++ all) := by
  induction front with
  | nil => exact h
  | cons move rest ih =>
      refine .drop move (hFront move List.mem_cons_self) (ih ?_)
      intro other hMem
      exact hFront other (List.mem_cons_of_mem _ hMem)

theorem Thinned.sublist (h : Thinned kept all) : kept.Sublist all := by
  induction h with
  | nil => exact List.Sublist.slnil
  | keep update _ ih => exact ih.cons_cons update
  | drop move _ _ ih => exact ih.cons move

theorem Thinned.filter (h : Thinned kept all) :
    (kept.filter fun update => !update.isMove) = all.filter fun update => !update.isMove := by
  induction h with
  | nil => rfl
  | keep update _ ih => rw [List.filter_cons, List.filter_cons, ih]
  | drop move hMove _ ih => rw [ih, List.filter_cons_of_neg (by simp [hMove])]

/-! ## Runs of one participant -/

/-- A waiting move is of who stands, and with none waiting the last update says who stands. -/
structure Seen.Fits (seen : Seen τ γ) : Prop where
  pending : ∀ move, seen.pending = some move → move.isMove = true ∧ seen.standing = move.stays
  agrees : seen.pending = none → lastly seen.heard = seen.standing

variable {seen next : Seen τ γ}

theorem Seen.Fits.step {update : Option (PresenceParticipant τ γ)} (h : seen.Fits)
    (hStep : seen.Step update next) : next.Fits := by
  cases hStep with
  | same => exact h
  | flushed =>
      refine ⟨nofun, fun _ => ?_⟩
      cases hPending : seen.pending with
      | none =>
          rw [Option.toList_none, List.append_nil]
          exact h.agrees hPending
      | some move =>
          rw [Option.toList_some, lastly, List.getLast?_concat]
          exact (h.pending move hPending).2.symm
  | moved update hMove =>
      refine ⟨?_, nofun⟩
      intro move hPending
      cases hPending
      exact ⟨hMove, rfl⟩
  | told update hMove =>
      refine ⟨nofun, fun _ => ?_⟩
      rw [lastly, List.getLast?_concat]
      rfl

/-- Steps, and the updates that they published. -/
inductive Seen.Steps : Seen τ γ → List (PresenceParticipant τ γ) → Seen τ γ → Prop where
  | refl (seen : Seen τ γ) : Steps seen [] seen
  | step {seen next last : Seen τ γ} {update : Option (PresenceParticipant τ γ)}
      {updates : List (PresenceParticipant τ γ)} (hStep : seen.Step update next)
      (hSteps : Steps next updates last) : Steps seen (update.toList ++ updates) last

theorem Seen.Fits.steps {seen last : Seen τ γ} {updates : List (PresenceParticipant τ γ)}
    (h : seen.Fits) (hSteps : seen.Steps updates last) : last.Fits := by
  induction hSteps with
  | refl => exact h
  | step hStep _ ih => exact ih (h.step hStep)

/-- What is heard over steps, with the move that then waits, is what was published, less moves. -/
theorem Seen.Steps.thinned {seen last : Seen τ γ} {updates : List (PresenceParticipant τ γ)}
    (hSteps : seen.Steps updates last) (h : seen.Fits) :
    ∃ new, last.heard = seen.heard ++ new ∧
      Thinned (new ++ last.pending.toList) (seen.pending.toList ++ updates) := by
  induction hSteps with
  | refl seen =>
      refine ⟨[], (List.append_nil _).symm, ?_⟩
      have hSame := Thinned.nil.append_left seen.pending.toList
      rw [List.append_nil] at hSame ⊢
      exact hSame
  | @step seen next last update updates hStep _ ih =>
      obtain ⟨new, hHeard, hThinned⟩ := ih (h.step hStep)
      cases hStep with
      | same => exact ⟨new, hHeard, hThinned⟩
      | flushed =>
          refine ⟨seen.pending.toList ++ new, by rw [hHeard, List.append_assoc], ?_⟩
          rw [List.append_assoc]
          exact hThinned.append_left seen.pending.toList
      | moved update hMove =>
          -- the move takes the place of the one that waited
          refine ⟨new, hHeard, hThinned.drop_left ?_⟩
          intro move hMem
          exact (h.pending move (Option.mem_toList.mp hMem)).1
      | told update hMove =>
          refine ⟨seen.pending.toList ++ ([update] ++ new), ?_, ?_⟩
          · rw [hHeard]
            simp only [List.append_assoc]
          · rw [List.append_assoc, List.append_assoc]
            exact (hThinned.append_left [update]).append_left seen.pending.toList

/-- With no update and no move that waits nothing happens. -/
theorem Seen.Step.silent (hStep : seen.Step none next) (hPending : seen.pending = none) :
    next = seen := by
  cases hStep with
  | same => rfl
  | flushed =>
      rw [hPending, Option.toList_none, List.append_nil]
      obtain ⟨standing, pending, heard⟩ := seen
      cases hPending
      rfl

/-! ## Rooms -/

section rooms

variable {room : Room τ γ} {id : JsString}

/-- A change appends to what was delivered. -/
theorem delivered_step (room : Room τ γ) (change : Change τ γ) :
    ∃ more, (room.step change).delivered = room.delivered ++ more := by
  have hFlush : ∀ room : Room τ γ, ∃ more, room.flushMoves.delivered = room.delivered ++ more := by
    intro room
    unfold Room.flushMoves
    split
    · exact ⟨[], (List.append_nil _).symm⟩
    · exact ⟨_, rfl⟩
  cases change with
  | nothing => exact ⟨[], (List.append_nil _).symm⟩
  | subscribe => exact ⟨_, rfl⟩
  | unsubscribe listener => exact ⟨[], (List.append_nil _).symm⟩
  | agent command gesture => exact ⟨_, rfl⟩
  | join who =>
      obtain ⟨more, hMore⟩ :=
        hFlush { room with people := room.people.set who.id (personOf who) }
      dsimp only [Room.step, Room.join, Room.emit]
      rw [hMore, List.append_assoc]
      exact ⟨_, rfl⟩
  | touch who touch =>
      dsimp only [Room.step, Room.touch]
      split
      · exact ⟨[], (List.append_nil _).symm⟩
      · obtain ⟨more, hMore⟩ :=
          hFlush { room with people := room.people.set who.id (personOf who) }
        dsimp only [Room.emit]
        rw [hMore, List.append_assoc]
        exact ⟨_, rfl⟩
  | leave id =>
      dsimp only [Room.step, Room.leave]
      split
      · exact ⟨[], (List.append_nil _).symm⟩
      · obtain ⟨more, hMore⟩ := hFlush room
        dsimp only [Room.emit]
        rw [hMore, List.append_assoc]
        exact ⟨_, rfl⟩
  | agentLeaves =>
      dsimp only [Room.step, Room.agentLeaves]
      split
      · exact ⟨[], (List.append_nil _).symm⟩
      · exact ⟨_, rfl⟩
  | flush => exact hFlush room

theorem filter_roster (h : room.Sound) (id : JsString) :
    (room.roster.filter fun participant => decide (participant.id = id)) =
      (room.standing id).toList := by
  have hPeople := room.people.filter_values
    (fun id person hPerson => (h.people id person hPerson).1) id
  unfold Room.roster Room.standing
  rw [List.filter_append, hPeople]
  split
  · rename_i hAgent
    rw [hAgent, Room.get_people_agent h, Option.toList_none, List.append_nil,
      List.filter_eq_self.mpr]
    intro participant hMem
    exact decide_eq_true (h.agent participant (Option.mem_toList.mp hMem)).1
  · rename_i hHuman
    rw [List.filter_eq_nil_iff.mpr, List.nil_append]
    intro participant hMem hSame
    rw [(h.agent participant (Option.mem_toList.mp hMem)).1] at hSame
    exact hHuman (of_decide_eq_true hSame).symm

theorem standing_self (h : room.Sound) {person : PresenceParticipant τ γ}
    (hStanding : room.standing id = some person) : personOf person = person := by
  unfold Room.standing at hStanding
  split at hStanding
  · exact (h.agent person hStanding).2
  · exact (h.people id person hStanding).2.2

theorem stays_of_person {person : PresenceParticipant τ γ} (hPerson : personOf person = person) :
    person.stays = some person := by
  rw [← hPerson]
  rfl

/-- A subscription starts with who stands. -/
theorem seen_opened (h : room.Sound) (id : JsString) :
    (room.step .subscribe).seen room.subscribed id =
      ⟨room.standing id, room.moves.get id, (room.standing id).toList⟩ := by
  have hNone : (room.delivered.filter fun delivery =>
      decide (delivery.1 = room.subscribed)) = [] := by
    rw [List.filter_eq_nil_iff]
    intro delivery hMem hSame
    exact Nat.ne_of_lt (h.delivered_lt delivery hMem) (of_decide_eq_true hSame)
  unfold Room.seen Room.heard Room.received
  dsimp only [Room.step]
  rw [List.filter_append, hNone, List.nil_append, List.filter_cons_of_pos (by simp),
    List.filter_nil, List.map_cons, List.map_nil, List.flatten_singleton, filter_roster h]
  rfl

theorem fits_opened (h : room.Sound) (id : JsString) :
    ((room.step .subscribe).seen room.subscribed id).Fits := by
  rw [seen_opened h]
  constructor
  case pending =>
    intro move hPending
    obtain ⟨-, hMove, hPerson⟩ := h.moves id move hPending
    have hHuman := (h.people id _ hPerson).2.1
    refine ⟨hMove, ?_⟩
    dsimp only
    rw [Room.standing, if_neg hHuman, hPerson]
    unfold PresenceParticipant.isMove at hMove
    unfold PresenceParticipant.stays
    split at hMove
    · rename_i hTouch
      rw [hTouch]
    · cases hMove
    · cases hMove
  case agrees =>
    intro _
    dsimp only
    cases hStanding : room.standing id with
    | none => rfl
    | some person => exact stays_of_person (standing_self h hStanding)

/-- The participant whom a change brings. -/
def Change.brings : Change τ γ → Option JsString
  | .nothing => none
  | .subscribe => none
  | .unsubscribe _ => none
  | .agent _ _ => some AGENT_ID
  | .join who => some who.id
  | .touch who _ => some who.id
  | .leave _ => none
  | .agentLeaves => none
  | .flush => none

/-- Who does not stand has no move that waits. -/
theorem get_moves_of_absent (h : room.Sound) (hAbsent : room.standing id = none) :
    room.moves.get id = none := by
  cases hMove : room.moves.get id with
  | none => rfl
  | some move =>
      have hPerson := (h.moves id move hMove).2.2
      rw [Room.standing, if_neg (h.people id _ hPerson).2.1, hPerson] at hAbsent
      cases hAbsent

/-- Of who does not stand, a change publishes nothing unless it brings it. -/
theorem publishedOf_of_absent (h : room.Sound) (hAbsent : room.standing id = none)
    {change : Change τ γ} (hAway : change.brings ≠ some id) :
    room.publishedOf id change = none := by
  unfold Room.publishedOf
  rw [Option.filter_eq_none_iff]
  intro update hUpdate hId
  have hId := of_decide_eq_true hId
  cases change with
  | nothing => cases hUpdate
  | subscribe => cases hUpdate
  | unsubscribe listener => cases hUpdate
  | agent command gesture =>
      cases hUpdate
      exact hAway (congrArg some hId)
  | join who =>
      cases hUpdate
      exact hAway (congrArg some hId)
  | touch who touch =>
      cases hUpdate
      exact hAway (congrArg some hId)
  | leave leaving =>
      obtain ⟨person, hPerson, rfl⟩ := Option.map_eq_some_iff.mp hUpdate
      obtain ⟨hName, hHuman, -⟩ := h.people leaving person hPerson
      have hLeaving : leaving = id := hName.symm.trans hId
      rw [← hLeaving, Room.standing, if_neg hHuman, hPerson] at hAbsent
      cases hAbsent
  | agentLeaves =>
      obtain ⟨agent, hAgent, rfl⟩ := Option.map_eq_some_iff.mp hUpdate
      have hName : AGENT_ID = id := (h.agent agent hAgent).1.symm.trans hId
      rw [← hName, Room.standing, if_pos rfl, hAgent] at hAbsent
      cases hAbsent
  | flush => cases hUpdate

end rooms

/-! ## Runs of the hub -/

/-- The participant whom an act brings. -/
def Act.brings : Act τ γ → Option JsString
  | .subscribe => none
  | .unsubscribe _ => none
  | .agent _ _ => some AGENT_ID
  | .join who => some who.id
  | .touch who _ => some who.id
  | .leave _ => none
  | .fires _ => none

namespace Hub

theorem brings_change (hub : Hub τ γ) (act : Act τ γ) : (hub.change act).brings = act.brings := by
  cases act with
  | fires timer =>
      unfold change
      dsimp only
      split
      · rfl
      · rfl
      · rfl
  | _ => rfl

theorem change_ne_unsubscribe {hub : Hub τ γ} {act : Act τ γ} {listener : Subscription}
    (h : ¬ .unsubscribe listener = act) : hub.change act ≠ .unsubscribe listener := by
  cases act with
  | unsubscribe other =>
      intro hEq
      cases hEq
      exact h rfl
  | fires timer =>
      unfold change
      dsimp only
      split
      · exact nofun
      · exact nofun
      · exact nofun
  | _ => exact nofun

/-- The update that an act publishes. -/
def publishes (hub : Hub τ γ) (act : Act τ γ) : Option (PresenceParticipant τ γ) :=
  hub.room.published (hub.change act)

/-- The updates that acts publish, oldest first. -/
def publishedBy (hub : Hub τ γ) : List (Act τ γ) → List (PresenceParticipant τ γ)
  | [] => []
  | act :: rest => (hub.publishes act).toList ++ (hub.step act).publishedBy rest

variable {hub : Hub τ γ} {ended : List Subscription} {listener : Subscription}

/-- Acts keep a hub sound and what is open open, and each participant is heard of as they
publish. -/
theorem Sound.acts {more : List (Act τ γ)} (acts : List (Act τ γ)) :
    ∀ {hub : Hub τ γ} {ended : List Subscription}, hub.Sound ended →
      Proper (acts ++ more) ended →
      ∃ ended', (acts.foldl Hub.step hub).Sound ended' ∧ Proper more ended' ∧
        (∃ batches, (acts.foldl Hub.step hub).delivered = hub.delivered ++ batches) ∧
        ∀ listener ∈ hub.room.listeners, .unsubscribe listener ∉ acts →
          listener ∈ (acts.foldl Hub.step hub).room.listeners ∧
          ∀ id, Seen.Steps (hub.room.seen listener id)
            ((hub.publishedBy acts).filter fun update => decide (update.id = id))
            ((acts.foldl Hub.step hub).room.seen listener id) := by
  induction acts with
  | nil =>
      intro hub ended h hProper
      exact ⟨ended, h, hProper, ⟨[], (List.append_nil _).symm⟩,
        fun listener hListener _ => ⟨hListener, fun id => .refl _⟩⟩
  | cons act rest ih =>
      intro hub ended h hProper
      obtain ⟨hEnded, hWho, hRest⟩ := hProper.cons
      obtain ⟨hStep, hSound⟩ := step_spec h hEnded hWho
      obtain ⟨ended', hSound', hMore, ⟨batches, hBatches⟩, hSteps⟩ := ih hSound hRest
      refine ⟨ended', hSound', hMore, ?_, fun listener hListener hOpen => ?_⟩
      · obtain ⟨first, hFirst⟩ := delivered_step hub.room (hub.change act)
        rw [← hStep] at hFirst
        refine ⟨first ++ batches, ?_⟩
        rw [← List.append_assoc]
        exact hBatches.trans (congrArg (· ++ batches) hFirst)
      · rw [List.mem_cons, not_or] at hOpen
        have hWho' : ∀ who, (hub.change act).who = some who → who.id ≠ AGENT_ID := by
          rw [who_change]
          exact hWho
        have hListener' : listener ∈ (hub.step act).room.listeners := by
          rw [hStep]
          exact Room.mem_listeners_step hListener (change_ne_unsubscribe hOpen.1)
        obtain ⟨hStill, hRestSteps⟩ := hSteps listener hListener' hOpen.2
        refine ⟨hStill, fun id => ?_⟩
        have hFirst : Seen.Step (hub.room.seen listener id)
            (hub.room.publishedOf id (hub.change act))
            ((hub.step act).room.seen listener id) := by
          rw [hStep]
          exact Room.seen_step h.room hListener hWho'
        have hAll := Seen.Steps.step hFirst (hRestSteps id)
        rw [Room.publishedOf, Option.toList_filter, ← List.filter_append] at hAll
        exact hAll

/-- Of who does not stand nothing is heard, until an act brings it. -/
theorem Sound.silent {listener : Subscription} {id : JsString} (acts : List (Act τ γ)) :
    ∀ {hub : Hub τ γ} {ended : List Subscription}, hub.Sound ended → Proper acts ended →
      listener ∈ hub.room.listeners → .unsubscribe listener ∉ acts →
      hub.room.standing id = none → (∀ act ∈ acts, act.brings ≠ some id) →
      (acts.foldl Hub.step hub).room.heard listener id = hub.room.heard listener id := by
  induction acts with
  | nil =>
      intro hub ended _ _ _ _ _ _
      rfl
  | cons act rest ih =>
      intro hub ended h hProper hListener hOpen hAbsent hAway
      obtain ⟨hEnded, hWho, hRest⟩ := hProper.cons
      obtain ⟨hStep, hSound⟩ := step_spec h hEnded hWho
      rw [List.mem_cons, not_or] at hOpen
      have hWho' : ∀ who, (hub.change act).who = some who → who.id ≠ AGENT_ID := by
        rw [who_change]
        exact hWho
      have hAway' : (hub.change act).brings ≠ some id := by
        rw [brings_change]
        exact hAway act List.mem_cons_self
      have hListener' : listener ∈ (hub.step act).room.listeners := by
        rw [hStep]
        exact Room.mem_listeners_step hListener (change_ne_unsubscribe hOpen.1)
      have hFirst : Seen.Step (hub.room.seen listener id)
          (hub.room.publishedOf id (hub.change act)) ((hub.step act).room.seen listener id) := by
        rw [hStep]
        exact Room.seen_step h.room hListener hWho'
      rw [publishedOf_of_absent h.room hAbsent hAway'] at hFirst
      have hSame := hFirst.silent (get_moves_of_absent h.room hAbsent)
      rw [Room.seen, Room.seen, Seen.mk.injEq] at hSame
      rw [List.foldl_cons, ih hSound hRest hListener' hOpen.2 (hSame.1.trans hAbsent)
        fun each hMem => hAway each (List.mem_cons_of_mem _ hMem)]
      exact hSame.2.2

end Hub

/-! ## Agreement -/

/-- The updates of one participant. -/
def updatesOf (id : JsString) (updates : List (PresenceParticipant τ γ)) :
    List (PresenceParticipant τ γ) :=
  updates.filter fun update => decide (update.id = id)

def notMoves (updates : List (PresenceParticipant τ γ)) : List (PresenceParticipant τ γ) :=
  updates.filter fun update => !update.isMove

/-- What a subscriber received, from a hub before it subscribed to a hub after some acts: a roster,
and events. -/
structure Agrees (start : Hub τ γ) (listener : Subscription) (acts : List (Act τ γ))
    (finish : Hub τ γ) (events : List (PresenceParticipant τ γ)) : Prop where
  received : ∃ batches, finish.room.received listener = start.now.roster :: batches ∧
    events = batches.flatten
  /-- it holds who is there, but for touches and gestures -/
  roster : ∀ id, finish.now.moves.get id = none →
    (holds start.now.roster events id).map personOf = finish.room.standing id
  /-- all but moves reach it, in order -/
  told : ∀ id, notMoves (updatesOf id events) =
    notMoves (updatesOf id (start.publishedBy acts))
  /-- the moves that reach it are in order among them; one may have waited when it subscribed -/
  inOrder : ∀ id, (updatesOf id events).Sublist
    ((start.now.moves.get id).toList ++ updatesOf id (start.publishedBy acts))

/-- What a subscription received is the roster, and then a part of what was delivered since. -/
theorem received_of_opened {start finish : Hub τ γ} (hStart : start.room.Sound)
    (hOpened : start.subscribe.room = start.room.step .subscribe)
    {batches : List (Subscription × List (PresenceParticipant τ γ))}
    (hBatches : finish.delivered = start.subscribe.delivered ++ batches) :
    finish.room.received start.subscriptions.length = start.now.roster ::
      (batches.filter fun delivery =>
        decide (delivery.1 = start.subscriptions.length)).map Prod.snd := by
  have hFirst : start.subscribe.delivered =
      start.delivered ++ [(start.subscriptions.length, start.now.roster)] :=
    congrArg Room.delivered hOpened
  have hNone : (start.delivered.filter fun delivery =>
      decide (delivery.1 = start.subscriptions.length)) = [] := by
    rw [List.filter_eq_nil_iff]
    intro delivery hMem hSame
    exact Nat.ne_of_lt (hStart.delivered_lt delivery hMem) (of_decide_eq_true hSame)
  have hDelivered : finish.room.delivered = finish.delivered := rfl
  rw [Room.received, hDelivered, hBatches, hFirst, List.filter_append, List.filter_append, hNone,
    List.nil_append, List.filter_cons_of_pos (by simp), List.filter_nil, List.map_append,
    List.map_cons, List.map_nil, List.singleton_append]

theorem filter_pending {pending : Option (PresenceParticipant τ γ)}
    (hMove : ∀ move, pending = some move → move.isMove = true) :
    (pending.toList.filter fun update => !update.isMove) = [] := by
  rw [List.filter_eq_nil_iff]
  intro move hMem
  simp [hMove move (Option.mem_toList.mp hMem)]

theorem agrees_of_steps {start finish : Hub τ γ} {acts : List (Act τ γ)}
    (hStart : start.room.Sound)
    (hBatches : ∃ batches, finish.delivered = start.subscribe.delivered ++ batches)
    (hOpened : start.subscribe.room = start.room.step .subscribe)
    (hSteps : ∀ id, Seen.Steps (start.subscribe.room.seen start.subscriptions.length id)
      (updatesOf id (start.subscribe.publishedBy acts))
      (finish.room.seen start.subscriptions.length id)) :
    ∃ events, Agrees start start.subscriptions.length (.subscribe :: acts) finish events := by
  obtain ⟨batches, hBatches⟩ := hBatches
  have hReceived := received_of_opened hStart hOpened hBatches
  generalize (batches.filter fun delivery =>
    decide (delivery.1 = start.subscriptions.length)).map Prod.snd = later at hReceived
  have hHeard : ∀ id, finish.room.heard start.subscriptions.length id =
      updatesOf id (start.now.roster ++ later.flatten) := by
    intro id
    rw [Room.heard, hReceived, List.flatten_cons]
    rfl
  have hRoster : ∀ id, updatesOf id start.now.roster = (start.room.standing id).toList :=
    filter_roster hStart
  have hFits : ∀ id, (start.subscribe.room.seen start.subscriptions.length id).Fits := by
    intro id
    rw [hOpened]
    exact fits_opened hStart id
  have hLast : ∀ id, (finish.room.seen start.subscriptions.length id).Fits := by
    intro id
    exact (hFits id).steps (hSteps id)
  -- what is heard after the roster is what was published since, less moves
  have hThinned : ∀ id, Thinned
      (updatesOf id later.flatten ++ (finish.now.moves.get id).toList)
      ((start.now.moves.get id).toList ++ updatesOf id (start.subscribe.publishedBy acts)) := by
    intro id
    obtain ⟨new, hNew, hThinned⟩ := (hSteps id).thinned (hFits id)
    have hNew : updatesOf id (start.now.roster ++ later.flatten) =
        (start.subscribe.room.seen start.subscriptions.length id).heard ++ new :=
      (hHeard id).symm.trans hNew
    rw [hOpened] at hNew hThinned
    rw [show start.subscriptions.length = start.room.subscribed from rfl, seen_opened hStart]
      at hNew hThinned
    rw [updatesOf, List.filter_append] at hNew
    have hSame : (start.room.standing id).toList ++ updatesOf id later.flatten =
        (start.room.standing id).toList ++ new :=
      (congrArg (· ++ updatesOf id later.flatten) (hRoster id)).symm.trans hNew
    rw [List.append_cancel_left hSame]
    exact hThinned
  refine ⟨later.flatten, ⟨later, hReceived, rfl⟩, ?_, ?_, ?_⟩
  · intro id hPending
    rw [holds, foldl_apply]
    have hAgrees := (hLast id).agrees hPending
    rw [Room.seen] at hAgrees
    dsimp only at hAgrees
    rw [hHeard] at hAgrees
    exact hAgrees
  · intro id
    have hFilter := (hThinned id).filter
    have hFinish : ((finish.now.moves.get id).toList.filter fun update => !update.isMove) = [] :=
      filter_pending fun move hMove => ((hLast id).pending move hMove).1
    have hBefore : ((start.now.moves.get id).toList.filter fun update => !update.isMove) = [] :=
      filter_pending fun move hMove => (hStart.moves id move hMove).2.1
    rw [List.filter_append, List.filter_append, hFinish, hBefore, List.append_nil,
      List.nil_append] at hFilter
    exact hFilter
  · intro id
    exact (List.sublist_append_left _ _).trans (hThinned id).sublist

/-- What an act that publishes a participant's leaving does for it. -/
theorem Seen.Step.gone {gone : PresenceParticipant τ γ} (hStep : seen.Step (some gone) next)
    (hGone : gone.touch = .left) :
    next.standing = none ∧ ∃ earlier, next.heard = earlier ++ [gone] := by
  cases hStep with
  | moved _ hMove =>
      rw [PresenceParticipant.isMove, hGone] at hMove
      cases hMove
  | told _ _ =>
      refine ⟨?_, _, rfl⟩
      dsimp only
      rw [PresenceParticipant.stays, hGone]

/-- Subscribers agree with the hub after all acts that follow their subscription, and are sent
nothing of a participant from its leaving until it is brought again. -/
theorem subscriber_agrees (before after : List (Act τ γ))
    (hProper : Proper (before ++ .subscribe :: after) [])
    (hOpen : .unsubscribe (Hub.run before).subscriptions.length ∉ after) :
    (∃ events, Agrees (Hub.run before) (Hub.run before).subscriptions.length (.subscribe :: after)
      (Hub.run (before ++ .subscribe :: after)) events) ∧
    ∀ middle act last gone, after = middle ++ act :: last →
      (Hub.run (before ++ .subscribe :: middle)).publishes act = some gone →
      gone.touch = .left → (∀ each ∈ last, each.brings ≠ some gone.id) →
      ∃ earlier,
        (Hub.run (before ++ .subscribe :: (middle ++ [act]))).room.heard
          (Hub.run before).subscriptions.length gone.id = earlier ++ [gone] ∧
        (Hub.run (before ++ .subscribe :: after)).room.heard
          (Hub.run before).subscriptions.length gone.id = earlier ++ [gone] := by
  obtain ⟨ended, hStart, hRest, -⟩ := Hub.sound_init.acts before hProper
  have hRun : ∀ acts, Hub.run (before ++ .subscribe :: acts) =
      acts.foldl Hub.step (Hub.run before).subscribe := by
    intro acts
    unfold Hub.run
    rw [List.foldl_append, List.foldl_cons]
    rfl
  change (Hub.run before).Sound ended at hStart
  generalize Hub.run before = start at hStart hRun hOpen
  obtain ⟨-, -, hAfter⟩ := hRest.cons
  have hEnded : ∀ listener, (Act.subscribe : Act τ γ).ended = some listener → listener ∉ ended :=
    nofun
  obtain ⟨hOpened, hSound⟩ := Hub.step_spec hStart hEnded nofun
  have hListener : start.subscriptions.length ∈ start.subscribe.room.listeners := by
    change start.subscribe.room = start.room.step .subscribe at hOpened
    rw [hOpened]
    exact List.mem_append_right _ (List.mem_singleton.mpr rfl)
  constructor
  · have hAll : Proper (after ++ []) ended := by
      rw [List.append_nil]
      exact hAfter
    obtain ⟨-, -, -, hBatches, hSteps⟩ := hSound.acts after hAll
    rw [hRun]
    exact agrees_of_steps hStart.room hBatches hOpened (hSteps _ hListener hOpen).2
  · rintro middle act last gone rfl hPublishes hGone hAway
    rw [List.mem_append, List.mem_cons, not_or, not_or] at hOpen
    obtain ⟨endedMiddle, hMiddle, hMore, -, hSteps⟩ := hSound.acts middle hAfter
    have hStill := (hSteps _ hListener hOpen.1).1
    rw [hRun] at hPublishes
    rw [hRun, hRun, List.foldl_append, List.foldl_append, List.foldl_cons, List.foldl_cons,
      List.foldl_nil]
    change Hub.Sound endedMiddle (middle.foldl Hub.step start.subscribe) at hMiddle
    change _ ∈ (middle.foldl Hub.step start.subscribe).room.listeners at hStill
    generalize middle.foldl Hub.step start.subscribe = hub at hMiddle hStill hPublishes
    obtain ⟨hEnded, hWho, hLast⟩ := hMore.cons
    obtain ⟨hStep, hSound'⟩ := Hub.step_spec hMiddle hEnded hWho
    have hWho' : ∀ who, (hub.change act).who = some who → who.id ≠ AGENT_ID := by
      rw [Hub.who_change]
      exact hWho
    have hFirst : Seen.Step (hub.room.seen start.subscriptions.length gone.id)
        (hub.room.publishedOf gone.id (hub.change act))
        ((hub.step act).room.seen start.subscriptions.length gone.id) := by
      rw [hStep]
      exact Room.seen_step hMiddle.room hStill hWho'
    have hPublished : hub.room.publishedOf gone.id (hub.change act) = some gone := by
      unfold Hub.publishes at hPublishes
      rw [Room.publishedOf, hPublishes]
      simp
    rw [hPublished] at hFirst
    obtain ⟨hAbsent, earlier, hHeard⟩ := hFirst.gone hGone
    have hStill' : start.subscriptions.length ∈ (hub.step act).room.listeners := by
      rw [hStep]
      exact Room.mem_listeners_step hStill (Hub.change_ne_unsubscribe hOpen.2.1)
    refine ⟨earlier, hHeard, ?_⟩
    rw [hSound'.silent last hLast hStill' hOpen.2.2 hAbsent hAway]
    exact hHeard

/-! ## A visit -/

def visitor : PresenceParticipant Nat Unit where
  id := JsString.ofString "v1"
  kind := .viewer
  name := JsString.ofString "Ann"
  color := 2
  viewOnly := false
  touch := .absent
  gesture := none

/-- A visitor whose move waits when the subscription starts, and who leaves. -/
theorem subscriber_agrees_visit :
    ∃ events, Agrees (Hub.run [.touch visitor ⟨.move, 1⟩]) 0
      [.subscribe, .touch visitor ⟨.up, 2⟩, .leave visitor.id]
      (Hub.run [.touch visitor ⟨.move, 1⟩, .subscribe, .touch visitor ⟨.up, 2⟩,
        .leave visitor.id]) events := by
  have hProper : Proper ([.touch visitor ⟨.move, 1⟩] ++ .subscribe ::
      [.touch visitor ⟨.up, 2⟩, .leave visitor.id]) [] := by
    refine ⟨by decide, ?_⟩
    intro act hMem who hWho
    simp only [List.cons_append, List.nil_append, List.mem_cons, List.not_mem_nil, or_false] at hMem
    rcases hMem with rfl | rfl | rfl | rfl
    · cases hWho
      decide
    · cases hWho
    · cases hWho
      decide
    · cases hWho
  exact (subscriber_agrees [.touch visitor ⟨.move, 1⟩]
    [.touch visitor ⟨.up, 2⟩, .leave visitor.id] hProper (by decide)).1

/-- With no move waiting a subscriber holds the touch that it was sent last, which the hub does
not; and a human with the agent's id would make two of one id, of which it holds one. -/
theorem touch_is_held :
    (Hub.run [.subscribe, .touch visitor ⟨.down, 1⟩]).now.moves.entries = [] ∧
      (Hub.run [.subscribe, .touch visitor ⟨.down, 1⟩]).room.received 0 =
        [[], [Room.touching visitor ⟨.down, 1⟩]] ∧
      holds [] [Room.touching visitor ⟨.down, 1⟩] visitor.id ≠
        (Hub.run [.subscribe, .touch visitor ⟨.down, 1⟩]).room.standing visitor.id ∧
      (Hub.run [.agent [112] none, .join { visitor with id := AGENT_ID }]).now.roster.map
        PresenceParticipant.id = [AGENT_ID, AGENT_ID] := by
  decide +kernel

end Stim.Presence
