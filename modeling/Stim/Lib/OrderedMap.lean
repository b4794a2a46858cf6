import Mathlib.Data.List.Nodup

/-!
# Insertion-ordered maps

A map that lists its entries in the order their keys were first set, as a JavaScript `Map`
does.
-/

namespace Stim

universe u v

/-- The entries of a map in insertion order; no key occurs twice. -/
@[ext] structure OrderedMap (κ : Type u) (ν : Type v) where
  entries : List (κ × ν)
  nodup : (entries.map Prod.fst).Nodup

namespace OrderedMap

variable {κ : Type u} {ν : Type v}

def keys (m : OrderedMap κ ν) : List κ := m.entries.map Prod.fst

def values (m : OrderedMap κ ν) : List ν := m.entries.map Prod.snd

def empty : OrderedMap κ ν := ⟨[], List.nodup_nil⟩

variable [DecidableEq κ]

def get (m : OrderedMap κ ν) (k : κ) : Option ν :=
  (m.entries.find? fun e => decide (e.1 = k)).map Prod.snd

/-- The entries after `set`: in place for a key that is there, last for a new one. -/
def setEntries (entries : List (κ × ν)) (k : κ) (v : ν) : List (κ × ν) :=
  if k ∈ entries.map Prod.fst then entries.map fun e => if e.1 = k then (k, v) else e
  else entries ++ [(k, v)]

theorem keys_setEntries (entries : List (κ × ν)) (k : κ) (v : ν) :
    (setEntries entries k v).map Prod.fst =
      if k ∈ entries.map Prod.fst then entries.map Prod.fst
      else entries.map Prod.fst ++ [k] := by
  unfold setEntries
  split
  · rw [List.map_map]
    refine List.map_congr_left ?_
    intro e _
    by_cases hKey : e.1 = k
    · simp [hKey]
    · simp [hKey]
  · simp

def set (m : OrderedMap κ ν) (k : κ) (v : ν) : OrderedMap κ ν where
  entries := setEntries m.entries k v
  nodup := by
    rw [keys_setEntries]
    split
    · exact m.nodup
    · rename_i hNew
      exact List.nodup_append.mpr ⟨m.nodup, List.nodup_singleton k, by
        rintro a hOld b hLast rfl
        rw [List.mem_singleton.mp hLast] at hOld
        exact hNew hOld⟩

def delete (m : OrderedMap κ ν) (k : κ) : OrderedMap κ ν where
  entries := m.entries.filter fun e => decide (e.1 ≠ k)
  nodup := m.nodup.sublist (List.filter_sublist.map Prod.fst)

/-- `new Map(entries)`. -/
def ofList (entries : List (κ × ν)) : OrderedMap κ ν :=
  entries.foldl (fun m e => m.set e.1 e.2) empty

variable {m : OrderedMap κ ν} {k : κ} {v : ν}

theorem get_eq_some_iff : m.get k = some v ↔ (k, v) ∈ m.entries := by
  obtain ⟨entries, hNodup⟩ := m
  unfold get
  dsimp only
  induction entries with
  | nil => simp
  | cons e rest ih =>
      obtain ⟨hHead, hRest⟩ := List.nodup_cons.mp hNodup
      by_cases hKey : e.1 = k
      · -- the key is at the head, so no later entry has it
        have hLater : (k, v) ∉ rest := by
          intro hMem
          exact hHead (hKey ▸ List.mem_map_of_mem hMem)
        subst hKey
        simp only [List.find?_cons_of_pos, decide_true, Option.map_some, Option.some.injEq,
          List.mem_cons, hLater, or_false]
        constructor
        · rintro rfl
          rfl
        · intro hEq
          rw [← hEq]
      · rw [List.find?_cons_of_neg (by simpa using hKey), ih hRest, List.mem_cons]
        constructor
        · exact Or.inr
        · rintro (rfl | hMem)
          · exact absurd rfl hKey
          · exact hMem

theorem get_eq_none_iff : m.get k = none ↔ k ∉ m.keys := by
  unfold get keys
  rw [Option.map_eq_none_iff, List.find?_eq_none, List.mem_map]
  constructor
  · rintro h ⟨e, hMem, hKey⟩
    exact h e hMem (decide_eq_true hKey)
  · intro h e hMem hKey
    exact h ⟨e, hMem, of_decide_eq_true hKey⟩

theorem get_isSome_iff : (m.get k).isSome ↔ k ∈ m.keys := by
  rw [← not_iff_not, ← get_eq_none_iff, Option.not_isSome_iff_eq_none]

theorem get_delete_self : (m.delete k).get k = none := by
  refine get_eq_none_iff.mpr ?_
  intro hMem
  obtain ⟨e, he, hKey⟩ := List.mem_map.mp hMem
  exact of_decide_eq_true (List.mem_filter.mp he).2 hKey

theorem get_delete_of_ne {k' : κ} (h : k' ≠ k) : (m.delete k).get k' = m.get k' := by
  refine Option.ext fun v => ?_
  rw [get_eq_some_iff, get_eq_some_iff]
  show (k', v) ∈ m.entries.filter _ ↔ _
  rw [List.mem_filter, decide_eq_true_iff]
  exact and_iff_left h

theorem entries_set_of_notMem (h : k ∉ m.keys) : (m.set k v).entries = m.entries ++ [(k, v)] :=
  if_neg h

variable {entries : List (κ × ν)}

theorem mem_setEntries {k' : κ} {v' : ν} :
    (k', v') ∈ setEntries entries k v ↔
      (k' = k ∧ v' = v) ∨ (k' ≠ k ∧ (k', v') ∈ entries) := by
  unfold setEntries
  split
  · rename_i hOld
    rw [List.mem_map]
    constructor
    · rintro ⟨e, hMem, hEq⟩
      split at hEq
      · cases hEq
        exact .inl ⟨rfl, rfl⟩
      · rename_i hKey
        cases hEq
        exact .inr ⟨hKey, hMem⟩
    · rintro (⟨rfl, rfl⟩ | ⟨hKey, hMem⟩)
      · obtain ⟨e, hMem, hKey⟩ := List.mem_map.mp hOld
        exact ⟨e, hMem, if_pos hKey⟩
      · exact ⟨(k', v'), hMem, if_neg hKey⟩
  · rename_i hNew
    rw [List.mem_append, List.mem_singleton, Prod.mk.injEq]
    constructor
    · rintro (hMem | hLast)
      · refine .inr ⟨?_, hMem⟩
        rintro rfl
        exact hNew (List.mem_map_of_mem hMem)
      · exact .inl hLast
    · rintro (hLast | ⟨-, hMem⟩)
      · exact .inr hLast
      · exact .inl hMem

theorem get_set_self : (m.set k v).get k = some v :=
  get_eq_some_iff.mpr (mem_setEntries.mpr (.inl ⟨rfl, rfl⟩))

theorem get_set_of_ne {k' : κ} (h : k' ≠ k) : (m.set k v).get k' = m.get k' := by
  refine Option.ext fun v' => ?_
  rw [get_eq_some_iff, get_eq_some_iff]
  refine mem_setEntries.trans ⟨?_, fun hMem => .inr ⟨h, hMem⟩⟩
  rintro (⟨hKey, -⟩ | ⟨-, hMem⟩)
  · exact absurd hKey h
  · exact hMem

theorem get_set (k' : κ) : (m.set k v).get k' = if k' = k then some v else m.get k' := by
  split
  · rename_i hKey
    rw [hKey, get_set_self]
  · rename_i hKey
    exact get_set_of_ne hKey

theorem length_entries_set_le : (m.set k v).entries.length ≤ m.entries.length + 1 := by
  show (setEntries m.entries k v).length ≤ _
  unfold setEntries
  split
  · simp
  · simp

theorem length_entries_set_of_mem (h : k ∈ m.keys) :
    (m.set k v).entries.length = m.entries.length := by
  have hEntries : (m.set k v).entries = m.entries.map fun e => if e.1 = k then (k, v) else e :=
    if_pos h
  rw [hEntries, List.length_map]

theorem length_entries_delete_lt (h : k ∈ m.keys) :
    (m.delete k).entries.length < m.entries.length := by
  obtain ⟨e, he, hKey⟩ := List.mem_map.mp h
  refine List.length_filter_lt_length_iff_exists.mpr ⟨e, he, ?_⟩
  simpa using hKey

theorem mem_of_mem_foldl_set :
    ∀ {m : OrderedMap κ ν}, (k, v) ∈ (entries.foldl (fun m e => m.set e.1 e.2) m).entries →
      (k, v) ∈ m.entries ∨ (k, v) ∈ entries := by
  induction entries with
  | nil =>
      intro m h
      exact .inl h
  | cons e rest ih =>
      intro m h
      rcases ih h with hOld | hRest
      · rcases mem_setEntries.mp hOld with ⟨hKey, hValue⟩ | ⟨-, hOld⟩
        · exact .inr (List.mem_cons.mpr (.inl (Prod.ext hKey hValue)))
        · exact .inl hOld
      · exact .inr (List.mem_cons_of_mem _ hRest)

/-- What a map made of entries answers is one of the entries. -/
theorem mem_of_get_ofList (h : (ofList entries).get k = some v) : (k, v) ∈ entries := by
  rcases mem_of_mem_foldl_set (get_eq_some_iff.mp h) with hOld | hEntry
  · exact absurd hOld List.not_mem_nil
  · exact hEntry

theorem get_isSome_foldl_set :
    ∀ {m : OrderedMap κ ν}, ((m.get k).isSome ∨ ∃ v, (k, v) ∈ entries) →
      ((entries.foldl (fun m e => m.set e.1 e.2) m).get k).isSome := by
  induction entries with
  | nil =>
      rintro m (h | ⟨v, hMem⟩)
      · exact h
      · cases hMem
  | cons e rest ih =>
      intro m h
      refine ih ?_
      by_cases hKey : k = e.1
      · subst hKey
        rw [get_set_self]
        exact .inl rfl
      · rw [get_set_of_ne hKey]
        rcases h with h | ⟨v, hMem⟩
        · exact .inl h
        · rcases List.mem_cons.mp hMem with rfl | hRest
          · exact absurd rfl hKey
          · exact .inr ⟨v, hRest⟩

theorem get_ofList_isSome (h : (k, v) ∈ entries) : ((ofList entries).get k).isSome :=
  get_isSome_foldl_set (.inr ⟨v, h⟩)

theorem entries_foldl_set :
    ∀ {m : OrderedMap κ ν}, (m.keys ++ entries.map Prod.fst).Nodup →
      (entries.foldl (fun m e => m.set e.1 e.2) m).entries = m.entries ++ entries := by
  induction entries with
  | nil =>
      intro m _
      simp
  | cons e rest ih =>
      intro m hNodup
      have hNew : e.1 ∉ m.keys := by
        intro hOld
        exact (List.nodup_append.mp hNodup).2.2 _ hOld e.1 (by simp) rfl
      have hEntries := entries_set_of_notMem (v := e.2) hNew
      rw [List.foldl_cons, ih, hEntries, List.append_assoc, List.singleton_append]
      rw [keys, hEntries]
      simpa [keys] using hNodup

/-- A list of entries with distinct keys is kept as it is. -/
theorem entries_ofList (h : (entries.map Prod.fst).Nodup) : (ofList entries).entries = entries := by
  unfold ofList
  rw [entries_foldl_set (by simpa [keys, empty] using h)]
  rfl

/-- Which of two equal keys is looked for does not matter: there is one. -/
theorem find?_reverse_entries (m : OrderedMap κ ν) (k : κ) :
    (m.entries.reverse.find? fun e => decide (e.1 = k)).map Prod.snd = m.get k := by
  have hNodup : (m.entries.reverse.map Prod.fst).Nodup := by
    rw [List.map_reverse, List.nodup_reverse]
    exact m.nodup
  have hReverse : ((⟨m.entries.reverse, hNodup⟩ : OrderedMap κ ν).get k) = m.get k := by
    refine Option.ext fun v => ?_
    rw [get_eq_some_iff, get_eq_some_iff]
    exact List.mem_reverse
  rw [← hReverse]
  rfl

/-- What was set last is answered, and else what was there. -/
theorem get_foldl_set (m : OrderedMap κ ν) (hNodup : (entries.map Prod.fst).Nodup) (k : κ) :
    (entries.foldl (fun m e => m.set e.1 e.2) m).get k =
      ((⟨entries, hNodup⟩ : OrderedMap κ ν).get k).or (m.get k) := by
  induction entries generalizing m with
  | nil => rfl
  | cons e rest ih =>
      have hRest : (rest.map Prod.fst).Nodup := (List.nodup_cons.mp hNodup).2
      rw [List.foldl_cons, ih (m.set e.1 e.2) hRest, get_set]
      have hGet : (⟨e :: rest, hNodup⟩ : OrderedMap κ ν).get k =
          if e.1 = k then some e.2 else (⟨rest, hRest⟩ : OrderedMap κ ν).get k := by
        unfold get
        by_cases hKey : e.1 = k
        · simp [hKey]
        · simp [hKey]
      rw [hGet]
      by_cases hKey : e.1 = k
      · have hNone : (⟨rest, hRest⟩ : OrderedMap κ ν).get k = none := by
          rw [get_eq_none_iff, ← hKey]
          exact (List.nodup_cons.mp hNodup).1
        rw [if_pos hKey, if_pos hKey.symm, hNone]
        rfl
      · rw [if_neg hKey, if_neg fun h => hKey h.symm]

/-- Where values name their keys, the values that name a key are the one under it. -/
theorem filter_values (m : OrderedMap κ ν) {name : ν → κ}
    (hName : ∀ k v, m.get k = some v → name v = k) (k : κ) :
    (m.values.filter fun v => decide (name v = k)) = (m.get k).toList := by
  have hEntries : ∀ e ∈ m.entries, name e.2 = e.1 := by
    intro e hMem
    exact hName e.1 e.2 (get_eq_some_iff.mpr hMem)
  obtain ⟨entries, hNodup⟩ := m
  unfold values get
  dsimp only at hEntries hNodup ⊢
  clear hName
  induction entries with
  | nil => rfl
  | cons e rest ih =>
      obtain ⟨hHead, hTail⟩ := List.nodup_cons.mp hNodup
      have hRest := ih hTail fun e' hMem => hEntries e' (List.mem_cons_of_mem _ hMem)
      rw [List.map_cons]
      by_cases hKey : e.1 = k
      · -- no later value names the key again
        have hLater : (rest.find? fun e => decide (e.1 = k)) = none := by
          rw [List.find?_eq_none]
          intro e' hMem hSame
          have hSame : e'.1 = k := of_decide_eq_true hSame
          rw [hKey, ← hSame] at hHead
          exact hHead (List.mem_map_of_mem hMem)
        rw [hLater] at hRest
        have hValue : name e.2 = k := (hEntries e List.mem_cons_self).trans hKey
        rw [List.filter_cons_of_pos (by simpa using hValue), hRest,
          List.find?_cons_of_pos (by simpa using hKey)]
        rfl
      · have hValue : ¬ name e.2 = k := by
          rw [hEntries e List.mem_cons_self]
          exact hKey
        rw [List.filter_cons_of_neg (by simpa using hValue), hRest,
          List.find?_cons_of_neg (by simpa using hKey)]

/-! ## Values that a map keeps -/

/-- A map whose values a function changes or drops. -/
def filterMap {μ : Type v} (m : OrderedMap κ ν) (f : κ → ν → Option μ) : OrderedMap κ μ where
  entries := m.entries.filterMap fun e => (f e.1 e.2).map fun v => (e.1, v)
  nodup := by
    refine List.Nodup.sublist ?_ m.nodup
    have hKeys : ∀ entries : List (κ × ν),
        ((entries.filterMap fun e => (f e.1 e.2).map fun v => (e.1, v)).map Prod.fst).Sublist
          (entries.map Prod.fst) := by
      intro entries
      induction entries with
      | nil => exact List.Sublist.slnil
      | cons e rest ih =>
          cases h : f e.1 e.2 with
          | none =>
              rw [List.filterMap_cons_none (by rw [h]; rfl), List.map_cons]
              exact ih.cons _
          | some v =>
              rw [List.filterMap_cons_some (by rw [h]; rfl), List.map_cons, List.map_cons]
              exact ih.cons_cons _
    exact hKeys m.entries

theorem get_filterMap {μ : Type v} (m : OrderedMap κ ν) (f : κ → ν → Option μ) (k : κ) :
    (m.filterMap f).get k = (m.get k).bind (f k) := by
  refine Option.ext fun v => ?_
  rw [get_eq_some_iff, Option.bind_eq_some_iff]
  show (k, v) ∈ m.entries.filterMap _ ↔ _
  rw [List.mem_filterMap]
  constructor
  · rintro ⟨e, hMem, hEntry⟩
    obtain ⟨value, hValue, hPair⟩ := Option.map_eq_some_iff.mp hEntry
    rw [Prod.mk.injEq] at hPair
    obtain ⟨rfl, rfl⟩ := hPair
    exact ⟨e.2, get_eq_some_iff.mpr hMem, hValue⟩
  · rintro ⟨value, hValue, hKept⟩
    refine ⟨(k, value), get_eq_some_iff.mp hValue, ?_⟩
    rw [hKept]
    rfl

end OrderedMap

end Stim
