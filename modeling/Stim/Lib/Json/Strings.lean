import Stim.Lib.Json

/-!
# The strings of a JSON value

A value with a function applied to its strings, at any depth.  The names of members are no strings
of the value.
-/

namespace Stim.Json

mutual

/-- A value with each string replaced. -/
def mapStrings (f : JsString → JsString) : Json → Json
  | .null => .null
  | .bool b => .bool b
  | .number token => .number token
  | .string s => .string (f s)
  | .array elements => .array (mapElements f elements)
  | .object members => .object (mapMembers f members)

def mapElements (f : JsString → JsString) : List Json → List Json
  | [] => []
  | v :: vs => mapStrings f v :: mapElements f vs

def mapMembers (f : JsString → JsString) : List (JsString × Json) → List (JsString × Json)
  | [] => []
  | (name, v) :: ms => (name, mapStrings f v) :: mapMembers f ms

end

mutual

def strings : Json → List JsString
  | .null => []
  | .bool _ => []
  | .number _ => []
  | .string s => [s]
  | .array elements => elementStrings elements
  | .object members => memberStrings members

def elementStrings : List Json → List JsString
  | [] => []
  | v :: vs => strings v ++ elementStrings vs

def memberStrings : List (JsString × Json) → List JsString
  | [] => []
  | (_, v) :: ms => strings v ++ memberStrings ms

end

section

variable {f g h : JsString → JsString}

mutual

/-- One function behind another is a third one, where it is on each string. -/
theorem mapStrings_mapStrings :
    ∀ v : Json, (∀ s ∈ strings v, g (f s) = h s) → mapStrings g (mapStrings f v) = mapStrings h v
  | .null, _ => by simp only [mapStrings]
  | .bool b, _ => by simp only [mapStrings]
  | .number token, _ => by simp only [mapStrings]
  | .string s, hs => by
      simp only [mapStrings]
      rw [hs s (by simp [strings])]
  | .array elements, hs => by
      simp only [mapStrings]
      rw [mapElements_mapElements elements (by simpa only [strings] using hs)]
  | .object members, hs => by
      simp only [mapStrings]
      rw [mapMembers_mapMembers members (by simpa only [strings] using hs)]

theorem mapElements_mapElements :
    ∀ vs : List Json, (∀ s ∈ elementStrings vs, g (f s) = h s) →
      mapElements g (mapElements f vs) = mapElements h vs
  | [], _ => by simp only [mapElements]
  | v :: vs, hs => by
      simp only [elementStrings, List.mem_append] at hs
      simp only [mapElements]
      rw [mapStrings_mapStrings v fun s hMem => hs s (Or.inl hMem),
        mapElements_mapElements vs fun s hMem => hs s (Or.inr hMem)]

theorem mapMembers_mapMembers :
    ∀ ms : List (JsString × Json), (∀ s ∈ memberStrings ms, g (f s) = h s) →
      mapMembers g (mapMembers f ms) = mapMembers h ms
  | [], _ => by simp only [mapMembers]
  | (name, v) :: ms, hs => by
      simp only [memberStrings, List.mem_append] at hs
      simp only [mapMembers]
      rw [mapStrings_mapStrings v fun s hMem => hs s (Or.inl hMem),
        mapMembers_mapMembers ms fun s hMem => hs s (Or.inr hMem)]

end

end

end Stim.Json
