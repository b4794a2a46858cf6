import Stim.Lib.Json.Stringify
import Stim.Lib.OrderedMap

/-!
# Members of JSON objects

`present` writes an object from members of which some may be missing, and `member` reads one under
its name.  Of members with different names each is read as it was written.
-/

namespace Stim

namespace JsString

/-- The first character of a text is known from its code units. -/
theorem encode_append_inj {c d : Char} {s t : JsString} (h : encode c ++ s = encode d ++ t) :
    c = d ∧ s = t := by
  have hc := c.valid
  have hd := d.valid
  have hc' : c.toNat < 0xD800 ∨ 0xDFFF < c.toNat ∧ c.toNat < 0x110000 := hc
  have hd' : d.toNat < 0xD800 ∨ 0xDFFF < d.toNat ∧ d.toNat < 0x110000 := hd
  have hunit : ∀ {a b : Nat}, a < 65536 → b < 65536 → UInt16.ofNat a = UInt16.ofNat b → a = b := by
    intro a b ha hb hab
    have hnat := congrArg UInt16.toNat hab
    rw [UInt16.toNat_ofNat', UInt16.toNat_ofNat'] at hnat
    omega
  have hchar : c.toNat = d.toNat → c = d := fun heq => Char.toNat_inj.mp heq
  unfold encode at h
  split_ifs at h with hlow hlow' hlow'
  · rw [List.singleton_append, List.singleton_append, List.cons.injEq] at h
    exact ⟨hchar (hunit (by omega) (by omega) h.1), h.2⟩
  · rw [List.singleton_append, List.cons_append, List.cons.injEq] at h
    have heq := hunit (by omega) (by omega) h.1
    omega
  · rw [List.singleton_append, List.cons_append, List.cons.injEq] at h
    have heq := hunit (by omega) (by omega) h.1
    omega
  · simp only [List.cons_append, List.nil_append, List.cons.injEq] at h
    have hhigh := hunit (by omega) (by omega) h.1
    have hlow := hunit (by omega) (by omega) h.2.1
    exact ⟨hchar (by omega), h.2.2⟩

theorem ofString_injective : Function.Injective ofString := by
  intro a b h
  have hlist : ∀ s t : List Char, s.flatMap encode = t.flatMap encode → s = t := by
    intro s
    have hne : ∀ c : Char, ∀ text : JsString, encode c ++ text ≠ [] := by
      intro c text
      unfold encode
      split
      · exact List.cons_ne_nil _ _
      · exact List.cons_ne_nil _ _
    induction s with
    | nil =>
        intro t h
        cases t with
        | nil => rfl
        | cons d t => exact absurd h.symm (hne d _)
    | cons c s ih =>
        intro t h
        cases t with
        | nil => exact absurd h (hne c _)
        | cons d t =>
            rw [List.flatMap_cons, List.flatMap_cons] at h
            obtain ⟨rfl, hrest⟩ := encode_append_inj h
            rw [ih t hrest]
  exact String.toList_injective (hlist _ _ h)

end JsString

namespace Json

/-- The members that are there. -/
def present (members : List (String × Option Json)) : List (JsString × Json) :=
  members.filterMap fun m => m.2.map fun v => (JsString.ofString m.1, v)

/-- A member of an object. -/
def member (members : List (JsString × Json)) (name : String) : Option Json :=
  lookup members (JsString.ofString name)

variable {members : List (String × Option Json)}

theorem mem_present {name : JsString} {v : Json} :
    (name, v) ∈ present members ↔ ∃ text, (text, some v) ∈ members ∧ JsString.ofString text = name := by
  unfold present
  rw [List.mem_filterMap]
  constructor
  · rintro ⟨⟨text, value⟩, hmem, hvalue⟩
    cases value with
    | none => cases hvalue
    | some w =>
        cases hvalue
        exact ⟨text, hmem, rfl⟩
  · rintro ⟨text, hmem, rfl⟩
    exact ⟨(text, some v), hmem, rfl⟩

/-- A member is read as it was written, and one that was missing is missing. -/
theorem member_present (hnodup : (members.map Prod.fst).Nodup) (name : String) :
    member (present members) name = (members.lookup name).join := by
  have hunique : ∀ {v w : Option Json}, (name, v) ∈ members → (name, w) ∈ members → v = w := by
    intro v w hv hw
    have heq := List.inj_on_of_nodup_map hnodup hv hw rfl
    exact (Prod.mk.inj heq).2
  unfold member lookup
  cases hlookup : members.lookup name with
  | none =>
      rw [List.lookup_eq_none_iff] at hlookup
      rw [Option.join_none, Option.map_eq_none_iff, List.find?_eq_none]
      rintro ⟨key, v⟩ hmem heq
      obtain ⟨text, hin, rfl⟩ := mem_present.mp (List.mem_reverse.mp hmem)
      have htext : text = name := JsString.ofString_injective (by simpa using heq)
      exact absurd (hlookup _ hin) (by simp [htext])
  | some value =>
      have hin : (name, value) ∈ members := by
        obtain ⟨front, back, hsplit, -⟩ := List.lookup_eq_some_iff.mp hlookup
        rw [hsplit]
        simp
      cases value with
      | none =>
          rw [Option.join_some, Option.map_eq_none_iff, List.find?_eq_none]
          rintro ⟨key, v⟩ hmem heq
          obtain ⟨text, hin', rfl⟩ := mem_present.mp (List.mem_reverse.mp hmem)
          have htext : text = name := JsString.ofString_injective (by simpa using heq)
          rw [htext] at hin'
          cases hunique hin hin'
      | some v =>
          rw [Option.join_some]
          have hpresent : (JsString.ofString name, v) ∈ (present members).reverse :=
            List.mem_reverse.mpr (mem_present.mpr ⟨name, hin, rfl⟩)
          cases hfind : (present members).reverse.find? (·.1 == JsString.ofString name) with
          | none =>
              rw [List.find?_eq_none] at hfind
              exact absurd (hfind _ hpresent) (by simp)
          | some found =>
              have hkey := List.find?_some hfind
              obtain ⟨text, hin', htext⟩ :=
                mem_present.mp (List.mem_reverse.mp (List.mem_of_find?_eq_some hfind))
              have hname : text = name :=
                JsString.ofString_injective (htext.trans (by simpa using hkey))
              rw [hname] at hin'
              cases hunique hin hin'
              rfl

theorem numeric_present (h : ∀ m ∈ members, ∀ v, m.2 = some v → Numeric v) :
    Numeric (.object (present members)) := by
  rw [Numeric, numericMembers_iff]
  rintro ⟨name, v⟩ hmem
  obtain ⟨text, hin, -⟩ := mem_present.mp hmem
  exact h _ hin v rfl

end Json
end Stim
