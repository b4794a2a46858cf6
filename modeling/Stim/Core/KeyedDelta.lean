import Stim.Lib.OrderedMap

/-!
# Keyed deltas

`packages/core/state/keyed-delta.ts`: what a subscription sends after its snapshot is the
entities that changed and the keys that are gone.  A receiver that applies every delta
holds the entities of the producer's last list.
-/

namespace Stim.KeyedDelta

variable {T : Type}

/-- The entities that changed since the last emit: whole entities to insert or replace, and
keys to drop. -/
structure Delta (T : Type) where
  upsert : List T
  remove : List String

/-- The JSON of the entities last sent on one subscription. -/
structure KeyedEntities where
  sent : OrderedMap String String

section

-- `json` is `JSON.stringify`, which is what entities are compared by
variable (key json : T → String)

/-- What the tracker knows of an entity. -/
def pair (entity : T) : String × String := (key entity, json entity)

/-- Records `entities` as sent in full, for a snapshot. -/
def KeyedEntities.reset (_tracker : KeyedEntities) (entities : List T) : KeyedEntities :=
  ⟨.ofList (entities.map (pair key json))⟩

/-- The loop of `next`: what is sent now, and what of it changed. -/
def nextLoop (before : OrderedMap String String) (entities : List T) :
    OrderedMap String String × List T :=
  entities.foldl (fun acc entity =>
    (acc.1.set (key entity) (json entity),
      if before.get (key entity) ≠ some (json entity) then acc.2 ++ [entity] else acc.2))
    (.empty, [])

/-- The delta from what was last sent to `entities`, recorded as sent; `none` when nothing
changed. -/
def KeyedEntities.next (tracker : KeyedEntities) (entities : List T) :
    Option (Delta T) × KeyedEntities :=
  let (sent, upsert) := nextLoop key json tracker.sent entities
  let remove := tracker.sent.keys.filter fun key => decide (key ∉ sent.keys)
  (if upsert.length ≠ 0 ∨ remove.length ≠ 0 then some ⟨upsert, remove⟩ else none, ⟨sent⟩)

/-- The `flatMap` of `applyKeyedDelta`, with the replacements that are left after it. -/
def replaceEach (removed : List String) :
    List T → OrderedMap String T → List T × OrderedMap String T
  | [], replaced => ([], replaced)
  | entity :: entities, replaced =>
      let id := key entity
      if id ∈ removed then replaceEach removed entities replaced
      else
        let (next, left) := replaceEach removed entities (replaced.delete id)
        ((replaced.get id).getD entity :: next, left)

/-- Applies `delta` to `entities`, keeping their order and appending new keys. -/
def applyKeyedDelta (entities : List T) (delta : Delta T) : List T :=
  let (next, left) := replaceEach key delta.remove entities
    (.ofList (delta.upsert.map fun entity => (key entity, entity)))
  next ++ left.values

/-- A subscription: its tracker, and the list its receiver has. -/
structure Subscription (T : Type) where
  tracker : KeyedEntities
  received : List T

/-- The snapshot: the tracker is reset and the receiver gets the list. -/
def Subscription.start (tracker : KeyedEntities) (entities : List T) : Subscription T :=
  ⟨tracker.reset key json entities, entities⟩

/-- One `next`, whose delta is applied unless it is null. -/
def Subscription.step (s : Subscription T) (entities : List T) : Subscription T :=
  let (delta, tracker) := s.tracker.next key json entities
  ⟨tracker, match delta with
    | none => s.received
    | some delta => applyKeyedDelta key s.received delta⟩

def Subscription.run (s : Subscription T) (lists : List (List T)) : Subscription T :=
  lists.foldl (Subscription.step key json) s

/-! ## One `next` -/

variable {key json} {entities : List T}

theorem map_fst_pair (key json : T → String) (entities : List T) :
    (entities.map (pair key json)).map Prod.fst = entities.map key := by
  rw [List.map_map]
  rfl

theorem nextLoop_eq (json : T → String) (before : OrderedMap String String)
    (h : (entities.map key).Nodup) :
    (nextLoop key json before entities).1.entries = entities.map (pair key json) ∧
      (nextLoop key json before entities).2 =
        entities.filter fun entity => decide (before.get (key entity) ≠ some (json entity)) := by
  have hLoop : ∀ (entities : List T) (acc : OrderedMap String String × List T),
      entities.foldl (fun acc entity =>
        (acc.1.set (key entity) (json entity),
          if before.get (key entity) ≠ some (json entity) then acc.2 ++ [entity] else acc.2)) acc =
      ((entities.map (pair key json)).foldl (fun m e => m.set e.1 e.2) acc.1,
        acc.2 ++ entities.filter fun entity =>
          decide (before.get (key entity) ≠ some (json entity))) := by
    intro entities
    induction entities with
    | nil =>
        intro acc
        simp
    | cons entity entities ih =>
        intro acc
        rw [List.foldl_cons, ih, List.map_cons, List.foldl_cons]
        by_cases hSame : before.get (key entity) = some (json entity)
        · simp [pair, hSame]
        · simp [pair, hSame]
  unfold nextLoop
  rw [hLoop]
  refine ⟨?_, List.nil_append _⟩
  exact OrderedMap.entries_ofList (by rwa [map_fst_pair])

/-- What an entity that is kept becomes. -/
def replacement (key : T → String) (replaced : OrderedMap String T) (entity : T) : T :=
  (replaced.get (key entity)).getD entity

/-- The entities that stay are replaced in place, and their replacements are used up. -/
theorem replaceEach_eq (removed : List String) :
    ∀ (entities : List T) (replaced : OrderedMap String T), (entities.map key).Nodup →
      (replaceEach key removed entities replaced).1 =
        (entities.filter fun entity => decide (key entity ∉ removed)).map
          (replacement key replaced) ∧
      (replaceEach key removed entities replaced).2.entries =
        replaced.entries.filter fun e => decide
          (e.1 ∉ (entities.map key).filter fun id => decide (id ∉ removed)) := by
  intro entities
  induction entities with
  | nil =>
      intro replaced _
      simp [replaceEach]
  | cons entity entities ih =>
      intro replaced hNodup
      obtain ⟨hHead, hRest⟩ := List.nodup_cons.mp hNodup
      by_cases hRemoved : key entity ∈ removed
      · obtain ⟨hNext, hLeft⟩ := ih replaced hRest
        simp [replaceEach, hRemoved, hNext, hLeft]
      · obtain ⟨hNext, hLeft⟩ := ih (replaced.delete (key entity)) hRest
        have hSame : (entities.filter fun e => decide (key e ∉ removed)).map
            (replacement key (replaced.delete (key entity))) =
              (entities.filter fun e => decide (key e ∉ removed)).map
                (replacement key replaced) := by
          refine List.map_congr_left ?_
          intro e hMem
          have hNe : key e ≠ key entity := by
            intro hEq
            exact hHead (hEq ▸ List.mem_map_of_mem (List.mem_of_mem_filter hMem))
          rw [replacement, OrderedMap.get_delete_of_ne hNe]
          rfl
        constructor
        · simp only [replaceEach, if_neg hRemoved, hNext, hSame]
          simp [hRemoved, replacement]
        · simp only [replaceEach, if_neg hRemoved, hLeft]
          simp only [OrderedMap.delete, List.filter_filter]
          refine List.filter_congr ?_
          intro e _
          by_cases hKey : e.1 = key entity
          · simp [hKey, hRemoved]
          · simp [hKey, hRemoved]

/-- The list that `applyKeyedDelta` makes. -/
theorem applyKeyedDelta_eq (delta : Delta T) (hEntities : (entities.map key).Nodup)
    (hUpsert : (delta.upsert.map key).Nodup) :
    ∃ replaced : OrderedMap String T,
      (∀ id entity, replaced.get id = some entity ↔ entity ∈ delta.upsert ∧ key entity = id) ∧
      applyKeyedDelta key entities delta =
        (entities.filter fun entity => decide (key entity ∉ delta.remove)).map
          (replacement key replaced) ++
        delta.upsert.filter fun entity => decide
          (key entity ∉ (entities.map key).filter fun id => decide (id ∉ delta.remove)) := by
  have hEntries : (OrderedMap.ofList (delta.upsert.map fun entity => (key entity, entity))).entries =
      delta.upsert.map fun entity => (key entity, entity) := by
    refine OrderedMap.entries_ofList ?_
    rwa [List.map_map]
  refine ⟨.ofList (delta.upsert.map fun entity => (key entity, entity)), ?_, ?_⟩
  · intro id entity
    rw [OrderedMap.get_eq_some_iff, hEntries, List.mem_map]
    constructor
    · rintro ⟨e, hMem, hEq⟩
      cases hEq
      exact ⟨hMem, rfl⟩
    · rintro ⟨hMem, rfl⟩
      exact ⟨entity, hMem, rfl⟩
  · obtain ⟨hNext, hLeft⟩ := replaceEach_eq delta.remove entities
      (.ofList (delta.upsert.map fun entity => (key entity, entity))) hEntities
    show (replaceEach key delta.remove entities _).1 ++
      (replaceEach key delta.remove entities _).2.entries.map Prod.snd = _
    rw [hNext, hLeft, hEntries, List.filter_map, List.map_map]
    congr 1
    exact List.map_id _

theorem key_replacement {delta : Delta T} {replaced : OrderedMap String T}
    (h : ∀ id entity, replaced.get id = some entity ↔ entity ∈ delta.upsert ∧ key entity = id)
    (entity : T) : key (replacement key replaced entity) = key entity := by
  unfold replacement
  cases hGet : replaced.get (key entity) with
  | none => rfl
  | some e => exact ((h _ e).mp hGet).2

/-! ## Convergence -/

/-- The tracker knows the list, and the receiver has its entities. -/
structure Synced (key json : T → String) (s : Subscription T) (entities : List T) : Prop where
  distinct : (entities.map key).Nodup
  sent : s.tracker.sent.entries = entities.map (pair key json)
  received : (s.received.map (pair key json)).Perm (entities.map (pair key json))

section Step

variable {s : Subscription T} {previous current : List T}

theorem Synced.keys_received (h : Synced key json s previous) :
    (s.received.map key).Perm (previous.map key) := by
  have hKeys := h.received.map Prod.fst
  rwa [map_fst_pair, map_fst_pair] at hKeys

theorem Synced.keys_sent (h : Synced key json s previous) :
    s.tracker.sent.keys = previous.map key := by
  rw [OrderedMap.keys, h.sent, map_fst_pair]

theorem synced_start (tracker : KeyedEntities) (h : (entities.map key).Nodup) :
    Synced key json (.start key json tracker entities) entities where
  distinct := h
  sent := OrderedMap.entries_ofList (by rwa [map_fst_pair])
  received := .refl _

/-- The delta of a `next`, whether it is sent or not. -/
def deltaOf (key json : T → String) (s : Subscription T) (previous current : List T) : Delta T where
  upsert := current.filter fun entity =>
    decide (s.tracker.sent.get (key entity) ≠ some (json entity))
  remove := (previous.map key).filter fun id => decide (id ∉ current.map key)

theorem next_eq (h : Synced key json s previous) (hCurrent : (current.map key).Nodup) :
    (s.tracker.next key json current).1 =
        (if (deltaOf key json s previous current).upsert = [] ∧
            (deltaOf key json s previous current).remove = [] then none
          else some (deltaOf key json s previous current)) ∧
      (s.tracker.next key json current).2.sent.entries = current.map (pair key json) := by
  obtain ⟨hSent, hUpsert⟩ := nextLoop_eq json s.tracker.sent hCurrent
  have hKeys : (nextLoop key json s.tracker.sent current).1.keys = current.map key := by
    rw [OrderedMap.keys, hSent, map_fst_pair]
  refine ⟨?_, hSent⟩
  simp only [KeyedEntities.next, hUpsert, hKeys, h.keys_sent, ne_eq, List.length_eq_zero_iff]
  by_cases hNone : (deltaOf key json s previous current).upsert = [] ∧
      (deltaOf key json s previous current).remove = []
  · rw [if_pos hNone, if_neg]
    rintro (hChanged | hGone)
    · exact hChanged hNone.1
    · exact hGone hNone.2
  · rw [if_neg hNone, if_pos]
    · rfl
    · exact not_and_or.mp hNone

/-- A null delta is one that changes nothing. -/
theorem applyKeyedDelta_nil (h : (entities.map key).Nodup) :
    applyKeyedDelta key entities ⟨[], []⟩ = entities := by
  obtain ⟨replaced, hReplaced, hEq⟩ := applyKeyedDelta_eq ⟨[], []⟩ h List.nodup_nil
  have hNone : replacement key replaced = id := by
    funext entity
    unfold replacement
    cases hGet : replaced.get (key entity) with
    | none => rfl
    | some e => cases ((hReplaced _ e).mp hGet).1
  rw [hEq]
  simp [hNone]

theorem received_step (h : Synced key json s previous) (hCurrent : (current.map key).Nodup) :
    (s.step key json current).received =
      applyKeyedDelta key s.received (deltaOf key json s previous current) := by
  have hNodup := h.keys_received.nodup_iff.mpr h.distinct
  show (match (s.tracker.next key json current).1 with
    | none => s.received
    | some delta => applyKeyedDelta key s.received delta) = _
  rw [(next_eq h hCurrent).1]
  split
  · rename_i hEq
    split at hEq
    · rename_i hNone
      have hDelta : deltaOf key json s previous current = ⟨[], []⟩ := by
        rw [← hNone.1, ← hNone.2]
      rw [hDelta, applyKeyedDelta_nil hNodup]
    · cases hEq
  · rename_i delta hEq
    split at hEq
    · cases hEq
    · cases hEq
      rfl

/-- Known keys keep their order, and new ones come last. -/
theorem keys_step (h : Synced key json s previous) (hCurrent : (current.map key).Nodup) :
    (s.step key json current).received.map key =
      ((s.received.map key).filter fun id => decide (id ∈ current.map key)) ++
        (current.map key).filter fun id => decide (id ∉ s.received.map key) := by
  have hNodup := h.keys_received.nodup_iff.mpr h.distinct
  have hUpsert : ((deltaOf key json s previous current).upsert.map key).Nodup :=
    hCurrent.sublist (List.filter_sublist.map key)
  obtain ⟨replaced, hReplaced, hEq⟩ := applyKeyedDelta_eq _ hNodup hUpsert
  -- a key the receiver has is dropped exactly when the new list lacks it
  have hKept : ∀ id ∈ s.received.map key,
      (id ∉ (deltaOf key json s previous current).remove ↔ id ∈ current.map key) := by
    intro id hId
    have hKnown : id ∈ previous.map key := h.keys_received.mem_iff.mp hId
    simp [deltaOf, List.mem_filter, hKnown]
  rw [received_step h hCurrent, hEq, List.map_append, List.map_map]
  congr 1
  · have hKey : key ∘ replacement key replaced = key := funext (key_replacement hReplaced)
    rw [hKey, List.filter_map]
    refine congrArg (List.map key) (List.filter_congr ?_)
    intro entity hEntity
    exact decide_eq_decide.mpr (hKept (key entity) (List.mem_map_of_mem hEntity))
  · refine Eq.trans ?_ List.filter_map.symm
    refine (congrArg (List.map key) List.filter_filter).trans ?_
    refine congrArg (List.map key) (List.filter_congr ?_)
    intro entity hEntity
    have hMem : key entity ∈ current.map key := List.mem_map_of_mem hEntity
    by_cases hKnown : key entity ∈ s.received.map key
    · have hStays := (hKept _ hKnown).mpr hMem
      have hIn : key entity ∈ (s.received.map key).filter fun id =>
          decide (id ∉ (deltaOf key json s previous current).remove) :=
        List.mem_filter.mpr ⟨hKnown, decide_eq_true hStays⟩
      rw [Function.comp_apply, decide_eq_false (not_not.mpr hIn),
        decide_eq_false (not_not.mpr hKnown), Bool.false_and]
    · have hUnsent : s.tracker.sent.get (key entity) = none := by
        rw [OrderedMap.get_eq_none_iff, h.keys_sent]
        exact fun hSent => hKnown (h.keys_received.mem_iff.mpr hSent)
      have hOut : key entity ∉ (s.received.map key).filter fun id =>
          decide (id ∉ (deltaOf key json s previous current).remove) :=
        fun hIn => hKnown (List.mem_of_mem_filter hIn)
      rw [Function.comp_apply, decide_eq_true hOut, decide_eq_true hKnown, hUnsent]
      rfl

/-- What the receiver has is of the new list. -/
theorem pair_mem_step (h : Synced key json s previous) (hCurrent : (current.map key).Nodup)
    {entity : T} (hMem : entity ∈ (s.step key json current).received) :
    pair key json entity ∈ current.map (pair key json) := by
  have hNodup := h.keys_received.nodup_iff.mpr h.distinct
  have hUpsert : ((deltaOf key json s previous current).upsert.map key).Nodup :=
    hCurrent.sublist (List.filter_sublist.map key)
  obtain ⟨replaced, hReplaced, hEq⟩ := applyKeyedDelta_eq _ hNodup hUpsert
  have hNew : ∀ e ∈ (deltaOf key json s previous current).upsert, e ∈ current :=
    fun e he => List.mem_of_mem_filter he
  rw [received_step h hCurrent, hEq, List.mem_append, List.mem_map] at hMem
  rcases hMem with ⟨old, hOld, rfl⟩ | hLast
  · obtain ⟨hReceived, hStays⟩ := List.mem_filter.mp hOld
    rw [replacement]
    cases hGet : replaced.get (key old) with
    | some e => exact List.mem_map_of_mem (hNew e ((hReplaced _ e).mp hGet).1)
    | none =>
        -- not replaced, so the new list has it as it was sent
        have hKnown : key old ∈ previous.map key :=
          h.keys_received.mem_iff.mp (List.mem_map_of_mem hReceived)
        have hThere : key old ∈ current.map key := by
          by_contra hGone
          exact of_decide_eq_true hStays
            (List.mem_filter.mpr ⟨hKnown, decide_eq_true hGone⟩)
        obtain ⟨new, hNewMem, hNewKey⟩ := List.mem_map.mp hThere
        have hSent : s.tracker.sent.get (key old) = some (json old) := by
          rw [OrderedMap.get_eq_some_iff, h.sent]
          exact h.received.mem_iff.mp (List.mem_map_of_mem hReceived)
        have hUnchanged : s.tracker.sent.get (key new) = some (json new) := by
          by_contra hChanged
          have hUp : new ∈ (deltaOf key json s previous current).upsert :=
            List.mem_filter.mpr ⟨hNewMem, decide_eq_true hChanged⟩
          rw [(hReplaced (key old) new).mpr ⟨hUp, hNewKey⟩] at hGet
          cases hGet
        rw [hNewKey, hSent] at hUnchanged
        refine List.mem_map.mpr ⟨new, hNewMem, ?_⟩
        rw [pair, pair, hNewKey, ← Option.some.inj hUnchanged]
        rfl
  · exact List.mem_map_of_mem (hNew entity (List.mem_of_mem_filter hLast))

/-- After a `next` the receiver is in step again. -/
theorem synced_step (h : Synced key json s previous) (hCurrent : (current.map key).Nodup) :
    Synced key json (s.step key json current) current := by
  refine ⟨hCurrent, (next_eq h hCurrent).2, ?_⟩
  have hKeys := keys_step h hCurrent
  have hNodup : ((s.step key json current).received.map key).Nodup := by
    rw [hKeys]
    refine List.nodup_append.mpr ⟨?_, hCurrent.filter _, ?_⟩
    · exact (h.keys_received.nodup_iff.mpr h.distinct).filter _
    · rintro id hOld _ hNew rfl
      exact of_decide_eq_true (List.mem_filter.mp hNew).2 (List.mem_filter.mp hOld).1
  refine (List.perm_ext_iff_of_nodup ?_ ?_).mpr fun p => ⟨?_, ?_⟩
  · exact List.Nodup.of_map Prod.fst (by rwa [map_fst_pair])
  · exact List.Nodup.of_map Prod.fst (by rwa [map_fst_pair])
  · intro hMem
    obtain ⟨entity, hEntity, rfl⟩ := List.mem_map.mp hMem
    exact pair_mem_step h hCurrent hEntity
  · intro hMem
    -- the receiver has an entity with this key, and the new list only one
    obtain ⟨entity, hEntity, rfl⟩ := List.mem_map.mp hMem
    have hKey : key entity ∈ (s.step key json current).received.map key := by
      rw [hKeys, List.mem_append]
      by_cases hKnown : key entity ∈ s.received.map key
      · exact .inl (List.mem_filter.mpr
          ⟨hKnown, decide_eq_true (List.mem_map_of_mem hEntity)⟩)
      · exact .inr (List.mem_filter.mpr
          ⟨List.mem_map_of_mem hEntity, decide_eq_true hKnown⟩)
    obtain ⟨held, hHeld, hHeldKey⟩ := List.mem_map.mp hKey
    obtain ⟨same, hSame, hPair⟩ := List.mem_map.mp (pair_mem_step h hCurrent hHeld)
    have hOne : same = entity := List.inj_on_of_nodup_map hCurrent hSame hEntity
      ((congrArg Prod.fst hPair).trans hHeldKey)
    rw [← hOne, hPair]
    exact List.mem_map_of_mem hHeld

/-- A delta is null exactly when the lists have the same entities. -/
theorem next_eq_none_iff (h : Synced key json s previous) (hCurrent : (current.map key).Nodup) :
    (s.tracker.next key json current).1 = none ↔
      ∀ p, p ∈ previous.map (pair key json) ↔ p ∈ current.map (pair key json) := by
  have hGet : ∀ p : String × String, s.tracker.sent.get p.1 = some p.2 ↔
      p ∈ previous.map (pair key json) := by
    intro p
    rw [OrderedMap.get_eq_some_iff, h.sent]
  have hUpsert : (deltaOf key json s previous current).upsert = [] ↔
      ∀ p ∈ current.map (pair key json), p ∈ previous.map (pair key json) := by
    simp only [deltaOf, List.filter_eq_nil_iff, decide_eq_true_eq, ne_eq, not_not,
      List.forall_mem_map, ← hGet]
    rfl
  have hRemove : (deltaOf key json s previous current).remove = [] ↔
      ∀ id ∈ previous.map key, id ∈ current.map key := by
    simp only [deltaOf, List.filter_eq_nil_iff, decide_eq_true_eq, not_not]
  have hNone : (s.tracker.next key json current).1 = none ↔
      (deltaOf key json s previous current).upsert = [] ∧
        (deltaOf key json s previous current).remove = [] := by
    rw [(next_eq h hCurrent).1]
    split
    · exact iff_of_true rfl ‹_›
    · exact iff_of_false (by simp) ‹_›
  rw [hNone, hUpsert, hRemove]
  constructor
  · rintro ⟨hNew, hOld⟩ p
    refine ⟨fun hMem => ?_, hNew p⟩
    -- the new list has an entity with this key, and the old one only this
    obtain ⟨old, hOldMem, rfl⟩ := List.mem_map.mp hMem
    obtain ⟨new, hNewMem, hKey⟩ := List.mem_map.mp (hOld _ (List.mem_map_of_mem hOldMem))
    obtain ⟨same, hSame, hPair⟩ := List.mem_map.mp (hNew _ (List.mem_map_of_mem hNewMem))
    have hOne : same = old := List.inj_on_of_nodup_map h.distinct hSame hOldMem
      ((congrArg Prod.fst hPair).trans hKey)
    rw [← hOne, hPair]
    exact List.mem_map_of_mem hNewMem
  · intro hSame
    refine ⟨fun p => (hSame p).mpr, ?_⟩
    intro id hId
    rw [← map_fst_pair key json] at hId ⊢
    obtain ⟨p, hMem, rfl⟩ := List.mem_map.mp hId
    exact List.mem_map_of_mem ((hSame p).mp hMem)

end Step

/-! ## Every run -/

theorem synced_run {s : Subscription T} {first : List T} {lists : List (List T)}
    (h : Synced key json s first) (hDistinct : ∀ l ∈ lists, (l.map key).Nodup) :
    Synced key json (s.run key json lists) ((first :: lists).getLast (List.cons_ne_nil _ _)) := by
  induction lists generalizing s first with
  | nil => exact h
  | cons l lists ih =>
      have hStep := synced_step h (hDistinct l (List.mem_cons_self ..))
      rw [List.getLast_cons (List.cons_ne_nil _ _)]
      exact ih hStep fun l' hl' => hDistinct l' (List.mem_cons_of_mem _ hl')

/-- Keyed deltas converge: over every run of a tracker from a snapshot, what the receiver
has after each `next` is the new list by key and JSON, with no key twice, the known keys in
their order and the new ones last; and a `next` is null exactly when nothing changed. -/
theorem converges (key json : T → String) (tracker : KeyedEntities) (first : List T)
    (lists : List (List T)) (current : List T) (hFirst : (first.map key).Nodup)
    (hLists : ∀ l ∈ lists, (l.map key).Nodup) (hCurrent : (current.map key).Nodup) :
    let before := (Subscription.start key json tracker first).run key json lists
    let after := before.step key json current
    let previous := (first :: lists).getLast (List.cons_ne_nil _ _)
    (after.received.map (pair key json)).Perm (current.map (pair key json)) ∧
      (after.received.map key).Nodup ∧
      after.received.map key =
        ((before.received.map key).filter fun id => decide (id ∈ current.map key)) ++
          (current.map key).filter (fun id => decide (id ∉ before.received.map key)) ∧
      ((before.tracker.next key json current).1 = none ↔
        ∀ p, p ∈ previous.map (pair key json) ↔ p ∈ current.map (pair key json)) := by
  intro before after previous
  have hBefore : Synced key json before previous :=
    synced_run (synced_start tracker hFirst) hLists
  have hAfter : Synced key json after current := synced_step hBefore hCurrent
  refine ⟨hAfter.received, ?_, keys_step hBefore hCurrent, next_eq_none_iff hBefore hCurrent⟩
  exact hAfter.keys_received.nodup_iff.mpr hCurrent

/-- An entity is replaced, one goes and one comes. -/
theorem converges_replaced :
    ((Subscription.start (T := String × String) Prod.fst Prod.snd ⟨.empty⟩
      [("a", "1"), ("b", "1")]).step Prod.fst Prod.snd [("c", "1"), ("b", "2")]).received.map
        Prod.fst = ["b", "c"] :=
  (converges Prod.fst Prod.snd ⟨.empty⟩ [("a", "1"), ("b", "1")] [] [("c", "1"), ("b", "2")]
    (by decide) (by simp) (by decide)).2.2.1

end

end Stim.KeyedDelta
