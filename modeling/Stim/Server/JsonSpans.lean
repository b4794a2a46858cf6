import Stim.Lib.Json

/-!
# The spans of JSON values

`packages/server/src/json-spans.ts`: where in a JSON text the elements of a member's array stand,
and the texts of the other members.  The scan does not parse: it counts brackets and passes over
strings.  On a text that is no JSON it may run on behind the end or throw, which is `Stopped` here.
-/

namespace Stim.Server.JsonSpans

open Json

inductive Stopped where
  /-- The scan goes on forever. -/
  | runsOn
  /-- `JSON.parse` threw. -/
  | syntaxError
  deriving DecidableEq, Repr

/-- `text.slice(start, end)` -/
def slice (text : JsString) (start stop : Nat) : JsString := (text.take stop).drop start

def skipSpace (text : JsString) (index : Nat) : Nat :=
  match h : text[index]? with
  | none => index
  | some char => if isSpace char then skipSpace text (index + 1) else index
termination_by text.length - index
decreasing_by
  have := (List.getElem?_eq_some_iff.mp h).1
  omega

/-- The index behind the string whose opening quotation mark is before `index`; `none` is a scan
that does not end. -/
def skipString (text : JsString) (index : Nat) : Option Nat :=
  match h : text[index]? with
  | none => none
  | some char =>
      if char = quotationMark then some (index + 1)
      else skipString text (index + if char = backslash then 2 else 1)
termination_by text.length - index
decreasing_by
  have := (List.getElem?_eq_some_iff.mp h).1
  split <;> omega

theorem lt_of_skipString {text : JsString} {index next : Nat}
    (h : skipString text index = some next) : index < next := by
  fun_induction skipString text index with
  | case1 => cases h
  | case2 => cases h; omega
  | case3 index char hchar hquote ih =>
      have := ih h
      split at this <;> omega

/-- The index behind the bracket that closes the `depth` open ones. -/
def skipContainer (text : JsString) (index : Nat) (depth : Int) : Option Nat :=
  match h : text[index]? with
  | none => none
  | some char =>
      if char = quotationMark then
        match _hnext : skipString text (index + 1) with
        | none => none
        | some next => skipContainer text next depth
      else if char = leftBrace ∨ char = leftBracket then skipContainer text (index + 1) (depth + 1)
      else if char = rightBrace ∨ char = rightBracket then
        if depth - 1 = 0 then some (index + 1) else skipContainer text (index + 1) (depth - 1)
      else skipContainer text (index + 1) depth
termination_by text.length - index
decreasing_by
  all_goals have := (List.getElem?_eq_some_iff.mp h).1
  · have := lt_of_skipString (by assumption)
    omega
  all_goals omega

def skipPlain (text : JsString) (index : Nat) : Nat :=
  match h : text[index]? with
  | none => index
  | some char => if endsValue char then index else skipPlain text (index + 1)
termination_by text.length - index
decreasing_by
  have := (List.getElem?_eq_some_iff.mp h).1
  omega

/-- The index behind the JSON value that begins at `start`, in text that is valid JSON. -/
def skipValue (text : JsString) (start : Nat) : Option Nat :=
  if text[start]? = some quotationMark then skipString text (start + 1)
  else if text[start]? = some leftBrace ∨ text[start]? = some leftBracket then
    skipContainer text start 0
  else some (skipPlain text start)

/-! ## Members -/

/-- What `visit` is called with. -/
structure Member where
  key : Json
  start : Nat
  stop : Nat
  memberStart : Nat

/-- The member that begins at `index`. -/
def memberAt (text : JsString) (object : Bool) (index : Nat) : Except Stopped Member :=
  if object then
    match skipValue text index with
    | none => .error .runsOn
    | some keyEnd =>
        match parse (slice text index keyEnd) with
        | none => .error .syntaxError
        | some key =>
            let start := skipSpace text (skipSpace text keyEnd + 1)
            match skipValue text start with
            | none => .error .runsOn
            | some stop => .ok ⟨key, start, stop, index⟩
  else
    match skipValue text index with
    | none => .error .runsOn
    | some stop => .ok ⟨.null, index, stop, index⟩

/-- Where the next turn of the loop begins. -/
def nextIndex (text : JsString) (stop : Nat) : Nat :=
  let index := skipSpace text stop
  if text[index]? = some comma then index + 1 else index

/-- The turns of the loop from `index` on.  A turn that does not move the index is made forever. -/
def members (text : JsString) (object : Bool) (index : Nat) : Except Stopped (List Member) :=
  let first := skipSpace text index
  if text[first]? = some rightBrace ∨ text[first]? = some rightBracket then .ok []
  else match memberAt text object first with
    | .error stopped => .error stopped
    | .ok member =>
        if index < nextIndex text member.stop ∧ index ≤ text.length then
          (members text object (nextIndex text member.stop)).map (member :: ·)
        else .error .runsOn
termination_by text.length + 1 - index

/-- The members of the object or array at `start`. -/
def eachMember (text : JsString) (start : Nat) : Except Stopped (List Member) :=
  members text (text[start]? == some leftBrace) (start + 1)

/-- Whether a key is this string. -/
def isName (key : Json) (name : JsString) : Bool :=
  match key with
  | .string s => s == name
  | _ => false

/-- The span of each element of the array that the top-level object holds under `member`, or
null. -/
def arrayElementSpans (text : JsString) (member : JsString) :
    Except Stopped (Option (List (Nat × Nat))) :=
  match eachMember text (skipSpace text 0) with
  | .error stopped => .error stopped
  | .ok members =>
      match (members.filter fun found => isName found.key member).getLast? with
      | none => .ok none
      | some last =>
          if text[last.start]? = some leftBracket then
            (eachMember text last.start).map fun elements =>
              some (elements.map fun element => (element.start, element.stop))
          else .ok none

/-- The text of each member of the top-level object whose key is not omitted. -/
def otherMembers (text : JsString) (omitted : List JsString) : Except Stopped (List JsString) :=
  (eachMember text (skipSpace text 0)).map fun found =>
    (found.filter fun member => !omitted.any (isName member.key)).map fun member =>
      slice text member.memberStart member.stop

end Stim.Server.JsonSpans
