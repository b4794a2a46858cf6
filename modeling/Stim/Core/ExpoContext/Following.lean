import Stim.Core.ExpoContext

/-!
# Following and reading

The follower emits what the reader attaches exactly when no matching error that has context comes
while an earlier one is held.  The reader's context depends only on the records after the error.
-/

namespace Stim.Logs

variable {into : ExpoContextTarget} {matching : NdjsonRecord → Bool}

/-- Records of which no two share `ts`, `msg` and `event`. -/
def Distinct (records : List NdjsonRecord) : Prop :=
  records.Pairwise fun a b => ¬(a.ts = b.ts ∧ a.msg = b.msg ∧ a.event = b.event)

/-- A record that goes on in the event's stream with something other than context. -/
def movesOn (record : NdjsonRecord) (event : Option JsonValue) : Bool :=
  isSameExpoStream record event && !isExpoErrorContext record event

/-- The next record of the error's event is a context line. -/
def hasContext (error : NdjsonRecord) (later : List NdjsonRecord) : Bool :=
  (later.find? fun record => isSameExpoStream record error.event).any fun record =>
    isExpoErrorContext record error.event

/-- No matching error that has context comes while an earlier one, `held`, waits for its own to
end. -/
def Undisturbed (matching : NdjsonRecord → Bool) :
    Option NdjsonRecord → List NdjsonRecord → Prop
  | _, [] => True
  | none, record :: rest =>
      Undisturbed matching (if matching record && isExpoError record then some record else none) rest
  | some held, record :: rest =>
      if movesOn record held.event then
        Undisturbed matching (if matching record && isExpoError record then some record else none)
          rest
      else
        (matching record && isExpoError record && hasContext record rest) = false ∧
          Undisturbed matching (some held) rest

instance decidableUndisturbed (matching : NdjsonRecord → Bool) :
    ∀ (held : Option NdjsonRecord) (records : List NdjsonRecord),
      Decidable (Undisturbed matching held records)
  | none, [] => isTrue trivial
  | some _, [] => isTrue trivial
  | none, _ :: rest => decidableUndisturbed matching _ rest
  | some held, record :: rest =>
      have := decidableUndisturbed matching (some held) rest
      have := decidableUndisturbed matching
        (if matching record && isExpoError record then some record else none) rest
      inferInstanceAs (Decidable (ite _ _ _))

/-! ## Reading -/

/-- What the reader makes of a matching record, given those after it. -/
def attachTo (into : ExpoContextTarget) (record : NdjsonRecord) (later : List NdjsonRecord) :
    LogEntry :=
  if isExpoError record then withExpoContext record (contextLines record.event later) into
  else .plain record

/-- What the reader makes of the records. -/
def attached (into : ExpoContextTarget) (matching : NdjsonRecord → Bool) :
    List NdjsonRecord → List LogEntry
  | [] => []
  | record :: rest =>
      (if matching record then [attachTo into record rest] else []) ++ attached into matching rest

theorem findIdx_sameEntry {before rest : List NdjsonRecord} {record : NdjsonRecord}
    (h : Distinct (before ++ record :: rest)) :
    (before ++ record :: rest).findIdx? (sameEntry record) = some before.length := by
  have hBefore : before.findIdx? (sameEntry record) = none := by
    refine List.findIdx?_eq_none_iff.mpr fun entry hEntry => ?_
    have hNot := (List.pairwise_append.mp h).2.2 entry hEntry record (List.mem_cons_self ..)
    by_contra hSame
    simp only [sameEntry, Bool.not_eq_false, Bool.and_eq_true, beq_iff_eq] at hSame
    exact hNot ⟨hSame.1.1.1, hSame.1.2, hSame.2⟩
  have hSelf : sameEntry record record = true := by simp [sameEntry]
  rw [List.findIdx?_append, hBefore, List.findIdx?_cons, hSelf]
  simp

/-- On distinct records the reader looks only at what follows each error. -/
theorem attachExpoErrorContext_eq_attached {records : List NdjsonRecord} (h : Distinct records) :
    attachExpoErrorContext records (records.filter matching) into =
      attached into matching records := by
  have hSuffix : ∀ rest before, records = before ++ rest →
      attachExpoErrorContext records (rest.filter matching) into = attached into matching rest := by
    intro rest
    induction rest with
    | nil => exact fun _ _ => rfl
    | cons record rest ih =>
        intro before hSplit
        have hRest := ih (before ++ [record]) (by rw [hSplit]; simp)
        have hOne : attachExpoErrorContext records [record] into = [attachTo into record rest] := by
          unfold attachExpoErrorContext attachTo
          rw [hSplit, List.map_singleton, findIdx_sameEntry (hSplit ▸ h)]
          have hDrop : (before ++ record :: rest).drop (before.length + 1) = rest := by
            rw [← List.drop_drop, List.drop_left']
            · rfl
            · rfl
          dsimp only
          rw [hDrop]
          cases isExpoError record <;> rfl
        unfold attached
        by_cases hMatch : matching record = true
        · rw [List.filter_cons_of_pos hMatch, if_pos hMatch, ← hRest, ← hOne]
          rfl
        · rw [List.filter_cons_of_neg hMatch, if_neg hMatch, ← hRest]
          rfl
  exact hSuffix records [] rfl

/-! ## Context lines -/

/-- What a record that does not end the context adds to it. -/
def contextLine (record : NdjsonRecord) (event : Option JsonValue) : List String :=
  if isExpoErrorContext record event then [(text record.msg).getD ""] else []

theorem sameStream_of_context {record : NdjsonRecord} {event : Option JsonValue}
    (h : isExpoErrorContext record event = true) : isSameExpoStream record event = true :=
  (Bool.and_eq_true_iff.mp h).1

theorem contextLines_cons (event : Option JsonValue) (record : NdjsonRecord)
    (rest : List NdjsonRecord) : contextLines event (record :: rest) =
      if movesOn record event then [] else contextLine record event ++ contextLines event rest := by
  unfold movesOn contextLine
  cases hStream : isSameExpoStream record event with
  | false =>
      have hContext : isExpoErrorContext record event = false := by
        by_contra hNot
        rw [sameStream_of_context (eq_true_of_ne_false hNot)] at hStream
        cases hStream
      simp [contextLines, hStream, hContext]
  | true => cases hContext : isExpoErrorContext record event <;> simp [contextLines, hStream, hContext]

theorem contextLines_ne_nil {error : NdjsonRecord} {later : List NdjsonRecord} :
    contextLines error.event later ≠ [] ↔ hasContext error later = true := by
  induction later with
  | nil => simp [contextLines, hasContext]
  | cons record rest ih =>
      unfold contextLines hasContext
      cases hStream : isSameExpoStream record error.event with
      | false =>
          rw [List.find?_cons_of_neg (by simp [hStream])]
          exact ih
      | true =>
          rw [List.find?_cons_of_pos (by simp [hStream])]
          cases hContext : isExpoErrorContext record error.event <;> simp [hContext]

theorem withExpoContext_ne {record : NdjsonRecord} {context : List String}
    (hError : isExpoError record = true) (hContext : context ≠ []) :
    withExpoContext record context into ≠ .plain record := by
  intro hEq
  cases into with
  | field =>
      rw [withExpoContext, if_neg hContext] at hEq
      cases hEq
  | msg =>
      -- the joined message is longer
      rw [withExpoContext, if_neg hContext] at hEq
      have hSame := congrArg (fun record => text (NdjsonRecord.msg record))
        (LogEntry.mk.inj hEq).1
      obtain ⟨msg, hMsg⟩ := Option.isSome_iff_exists.mp (Bool.and_eq_true_iff.mp hError).2
      simp only [NdjsonRecord.msg, OrderedMap.get_set_self] at hSame hMsg
      rw [hMsg, String.intercalate_cons_of_ne_nil hContext] at hSame
      have hLength := congrArg String.length (Option.some.inj hSame)
      simp only [Option.getD_some, String.length_append] at hLength
      have hBreak : "\n".length = 1 := rfl
      omega

/-- An error with context is not what the reader makes of it. -/
theorem attachTo_eq_iff {record : NdjsonRecord} {later : List NdjsonRecord} :
    attachTo into record later = .plain record ↔
      (isExpoError record && hasContext record later) = false := by
  unfold attachTo
  split
  · rename_i hError
    rw [hError, Bool.true_and]
    constructor
    · intro hEq
      by_contra hNot
      exact withExpoContext_ne hError (contextLines_ne_nil.mpr (eq_true_of_ne_false hNot)) hEq
    · intro hNone
      have hNil : contextLines record.event later = [] := by
        by_contra hSome
        rw [contextLines_ne_nil.mp hSome] at hNone
        cases hNone
      rw [hNil]
      cases into <;> rfl
  · rename_i hError
    simp [hError]

/-! ## Following -/

/-- What a follower has emitted once it has been pushed records and flushed. -/
def outcome (into : ExpoContextTarget) (matching : NdjsonRecord → Bool) (f : Follower)
    (records : List NdjsonRecord) : List LogEntry :=
  ((f.pushAll into matching records).flush into).emitted

section Follow

variable {grew : Bool} {emitted : List LogEntry} {queued : List NdjsonRecord} {held record : NdjsonRecord}
  {context : List String} {isMatch : Bool} {rest records : List NdjsonRecord}

def Follower.idle (grew : Bool) (emitted : List LogEntry) : Follower := ⟨none, grew, emitted⟩

def Follower.holding (held : NdjsonRecord) (context : List String) (queued : List NdjsonRecord)
    (grew : Bool) (emitted : List LogEntry) : Follower :=
  ⟨some ⟨held, context, queued⟩, grew, emitted⟩

theorem push_idle : (Follower.idle grew emitted).push into record isMatch =
    if isMatch && isExpoError record then Follower.holding record [] [] true emitted
    else Follower.idle grew (emitted ++ if isMatch then [.plain record] else []) := by
  unfold Follower.push Follower.pushRest Follower.idle
  dsimp only
  split
  · rfl
  · split
    · rfl
    · rw [List.append_nil]

/-- A held error waits for its stream to go on with something else. -/
theorem push_holding : (Follower.holding held context queued grew emitted).push into record isMatch =
    if movesOn record held.event then
      (Follower.idle grew
        (emitted ++ withExpoContext held context into :: queued.map .plain)).push into record isMatch
    else Follower.holding held (context ++ contextLine record held.event)
      (queued ++ if isMatch then [record] else [])
      (grew || isExpoErrorContext record held.event) emitted := by
  have hOther : isSameExpoStream record held.event = false →
      isExpoErrorContext record held.event = false := by
    intro hStream
    by_contra hNot
    rw [sameStream_of_context (eq_true_of_ne_false hNot)] at hStream
    cases hStream
  cases hStream : isSameExpoStream record held.event with
  | false =>
      cases isMatch <;>
        simp [Follower.push, Follower.holding, Follower.pushRest, movesOn, contextLine, hStream,
          hOther hStream]
  | true =>
      cases hContext : isExpoErrorContext record held.event with
      | false =>
          simp [Follower.push, Follower.holding, Follower.idle, Follower.flush, movesOn, hStream,
            hContext]
      | true =>
          cases isMatch <;>
            simp [Follower.push, Follower.holding, movesOn, contextLine, hStream, hContext]

theorem outcome_cons (f : Follower) : outcome into matching f (record :: rest) =
    outcome into matching (f.push into record (matching record)) rest := rfl

theorem outcome_idle_nil : outcome into matching (.idle grew emitted) [] = emitted := rfl

theorem outcome_holding_nil : outcome into matching (.holding held context queued grew emitted) [] =
    emitted ++ withExpoContext held context into :: queued.map .plain := rfl

/-- What has been emitted stays, and then come the held error and its queue. -/
theorem outcome_isInit (into : ExpoContextTarget) (matching : NdjsonRecord → Bool)
    (records : List NdjsonRecord) :
    (∀ grew emitted, ∃ more,
      outcome into matching (.idle grew emitted) records = emitted ++ more) ∧
    ∀ held context queued grew emitted, ∃ first more,
      outcome into matching (.holding held context queued grew emitted) records =
        emitted ++ first :: (queued.map .plain ++ more) := by
  induction records with
  | nil =>
      refine ⟨fun grew emitted => ⟨[], ?_⟩, fun held context queued grew emitted =>
        ⟨withExpoContext held context into, [], ?_⟩⟩
      · rw [outcome_idle_nil, List.append_nil]
      · rw [outcome_holding_nil, List.append_nil]
  | cons record rest ih =>
      obtain ⟨ihIdle, ihHolding⟩ := ih
      have hIdle : ∀ grew emitted, ∃ more,
          outcome into matching (.idle grew emitted) (record :: rest) = emitted ++ more := by
        intro grew emitted
        rw [outcome_cons, push_idle]
        split
        · obtain ⟨first, more, hEq⟩ := ihHolding record [] [] true emitted
          exact ⟨_, hEq⟩
        · obtain ⟨more, hEq⟩ := ihIdle grew
            (emitted ++ if matching record then [.plain record] else [])
          exact ⟨_, hEq.trans (List.append_assoc ..)⟩
      refine ⟨hIdle, ?_⟩
      intro held context queued grew emitted
      rw [outcome_cons, push_holding]
      split
      · -- the held error and its queue are emitted, and the record is pushed
        rw [← outcome_cons]
        obtain ⟨more, hEq⟩ := hIdle grew
          (emitted ++ withExpoContext held context into :: queued.map .plain)
        exact ⟨withExpoContext held context into, more, by rw [hEq]; simp⟩
      · obtain ⟨first, more, hEq⟩ := ihHolding held
          (context ++ contextLine record held.event)
          (queued ++ if matching record then [record] else [])
          (grew || isExpoErrorContext record held.event) emitted
        exact ⟨first, (if matching record then [record] else []).map .plain ++ more,
          by rw [hEq]; simp⟩

theorem attached_cons : attached into matching (record :: rest) =
    (if matching record then [attachTo into record rest] else []) ++
      attached into matching rest := rfl

/-- One record more, seen by an idle follower. -/
theorem outcome_idle_cons
    (hIdle : ∀ grew emitted, outcome into matching (.idle grew emitted) rest =
      emitted ++ attached into matching rest ↔ Undisturbed matching none rest)
    (hHolding : ∀ held context queued grew emitted,
      outcome into matching (.holding held context queued grew emitted) rest =
        emitted ++ withExpoContext held (context ++ contextLines held.event rest) into ::
          (queued.map .plain ++ attached into matching rest) ↔
            Undisturbed matching (some held) rest) (grew : Bool) (emitted : List LogEntry) :
    outcome into matching (.idle grew emitted) (record :: rest) =
      emitted ++ attached into matching (record :: rest) ↔
        Undisturbed matching none (record :: rest) := by
  rw [outcome_cons, push_idle, attached_cons, Undisturbed]
  split
  · rename_i hHolds
    obtain ⟨hMatch, hError⟩ := Bool.and_eq_true_iff.mp hHolds
    rw [← hHolding record [] [] true emitted, if_pos hMatch, attachTo, if_pos hError]
    simp
  · rename_i hNot
    rw [← hIdle grew (emitted ++ if matching record then [.plain record] else [])]
    cases hMatch : matching record with
    | false => simp
    | true =>
        have hError : ¬ isExpoError record = true := fun hError => hNot (by simp [hMatch, hError])
        simp [attachTo, hError]

theorem outcome_iff (records : List NdjsonRecord) :
    (∀ grew emitted, outcome into matching (.idle grew emitted) records =
        emitted ++ attached into matching records ↔ Undisturbed matching none records) ∧
      ∀ held context queued grew emitted,
        outcome into matching (.holding held context queued grew emitted) records =
          emitted ++ withExpoContext held (context ++ contextLines held.event records) into ::
            (queued.map .plain ++ attached into matching records) ↔
              Undisturbed matching (some held) records := by
  induction records with
  | nil =>
      refine ⟨fun grew emitted => ?_, fun held context queued grew emitted => ?_⟩
      · rw [outcome_idle_nil, attached, List.append_nil]
        exact ⟨fun _ => trivial, fun _ => rfl⟩
      · rw [outcome_holding_nil, attached, contextLines, List.append_nil, List.append_nil]
        exact ⟨fun _ => trivial, fun _ => rfl⟩
  | cons record rest ih =>
      obtain ⟨ihIdle, ihHolding⟩ := ih
      refine ⟨outcome_idle_cons ihIdle ihHolding, ?_⟩
      intro held context queued grew emitted
      rw [outcome_cons, push_holding, contextLines_cons]
      by_cases hMoves : movesOn record held.event = true
      · rw [if_pos hMoves, if_pos hMoves, Undisturbed, if_pos hMoves, ← outcome_cons]
        have hStep : outcome into matching (.idle grew _) (record :: rest) = _ ↔ _ :=
          outcome_idle_cons ihIdle ihHolding grew
            (emitted ++ withExpoContext held context into :: queued.map .plain)
        rw [Undisturbed] at hStep
        rw [← hStep]
        simp
      · rw [if_neg hMoves, if_neg hMoves, Undisturbed, if_neg hMoves, attached_cons]
        have hStep := ihHolding held (context ++ contextLine record held.event)
          (queued ++ if matching record then [record] else [])
          (grew || isExpoErrorContext record held.event) emitted
        rw [← hStep]
        cases hMatch : matching record with
        | false => simp
        | true =>
            -- the record is in the queue as it is
            obtain ⟨first, more, hPrefix⟩ := outcome_isInit into matching rest |>.2
              held (context ++ contextLine record held.event) (queued ++ [record])
              (grew || isExpoErrorContext record held.event) emitted
            simp only [if_true, Bool.true_and, List.map_append, List.map_singleton,
              List.append_assoc]
            constructor
            · intro hEq
              have hQueued := hPrefix.symm.trans hEq
              simp only [List.map_append, List.map_singleton, List.append_assoc,
                List.append_cancel_left_eq, List.cons.injEq, List.singleton_append] at hQueued
              have hPlain : attachTo into record rest = .plain record := hQueued.2.1.symm
              rw [hPlain] at hEq
              exact ⟨attachTo_eq_iff.mp hPlain, hEq⟩
            · rintro ⟨hNone, hEq⟩
              rw [attachTo_eq_iff.mpr hNone]
              exact hEq

end Follow

/-- Following emits what reading attaches exactly when no matching error that has context comes
while an earlier one is held. -/
theorem follow_eq_attachExpoErrorContext_iff {records : List NdjsonRecord} (h : Distinct records) :
    follow into matching records =
        attachExpoErrorContext records (records.filter matching) into ↔
      Undisturbed matching none records := by
  rw [attachExpoErrorContext_eq_attached h]
  exact (outcome_iff records).1 false []

/-! ### Two errors -/

/-- A raw line of Metro. -/
def metroLine (ts : Rat) (level msg event : String) : NdjsonRecord :=
  .ofList [("ts", .num ts), ("src", .str "metro"), ("level", .str level), ("raw", .bool true),
    ("msg", .str msg), ("event", .str event)]

/-- One error at a time, each with its code frame. -/
def oneByOne : List NdjsonRecord :=
  [metroLine 1 "error" "Unable to resolve ./a" "bundle-1", metroLine 2 "info" "  > 1 | a" "bundle-1",
    metroLine 3 "info" "Bundled" "bundle-1", metroLine 4 "error" "Unable to resolve ./b" "bundle-2",
    metroLine 5 "info" "Code: 7" "bundle-2"]

theorem follow_eq_attach_oneByOne :
    follow .msg isExpoError oneByOne =
      attachExpoErrorContext oneByOne (oneByOne.filter isExpoError) .msg := by
  refine (follow_eq_attachExpoErrorContext_iff ?_).mpr ?_
  · unfold Distinct oneByOne
    decide +kernel
  · decide +kernel

/-- The second error comes while the first is held. -/
def interleaved : List NdjsonRecord :=
  [metroLine 1 "error" "Unable to resolve ./a" "bundle-1",
    metroLine 2 "error" "Unable to resolve ./b" "bundle-2", metroLine 3 "info" "Code: 7" "bundle-2"]

theorem not_follow_eq_attach :
    ¬ ∀ (records : List NdjsonRecord) (matching : NdjsonRecord → Bool) (into : ExpoContextTarget),
      Distinct records → follow into matching records =
        attachExpoErrorContext records (records.filter matching) into := by
  intro hAll
  have hDistinct : Distinct interleaved := by
    unfold Distinct interleaved
    decide +kernel
  have hEq := congrArg (List.map LogEntry.context) (hAll interleaved isExpoError .field hDistinct)
  exact absurd hEq (by decide +kernel)

end Stim.Logs
