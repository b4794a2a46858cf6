import Stim.Lib.Whitespace

/-!
# The reader of `project.pbxproj`

`parseNativeXcodeSyntax` of `packages/stim-cli/src/integrations/native-xcode-syntax.ts`.  What the
reader has not read yet is a text of its own, so its place is the length of the source less that of
the text.  `value`, `dictionary` and `list` call one another as deep as `fuel` allows.
-/

namespace Stim.NativeXcodeSyntax

abbrev newline : UInt16 := 10
abbrev quote : UInt16 := 34
abbrev dollar : UInt16 := 36
abbrev openParen : UInt16 := 40
abbrev closeParen : UInt16 := 41
abbrev star : UInt16 := 42
abbrev comma : UInt16 := 44
abbrev slash : UInt16 := 47
abbrev semicolon : UInt16 := 59
abbrev equals : UInt16 := 61
abbrev backslash : UInt16 := 92
abbrev openBrace : UInt16 := 123
abbrev closeBrace : UInt16 := 125

/-- `LITERAL_END` -/
def isLiteralEnd (c : UInt16) : Bool :=
  Whitespace.isSpaceUnit c ||
    [comma, semicolon, openParen, closeParen, openBrace, closeBrace, equals].contains c

inductive Failure where
  | rejected (reason : String) (offset : Nat)
  /-- The recursion went deeper than its fuel. -/
  | exhausted
  deriving DecidableEq, Repr

def Failure.message : Failure → String
  | .rejected reason offset => s!"Cannot parse project.pbxproj: {reason} at offset {offset}."
  | .exhausted => ""

/-- The members of a dictionary stand in the order in which their keys first came. -/
inductive Tree where
  | text (written : JsString)
  | list (items : List Tree)
  | dictionary (members : List (JsString × Tree))

/-- `result[key] = value` -/
def assign (members : List (JsString × Tree)) (key : JsString) (value : Tree) :
    List (JsString × Tree) :=
  match members with
  | [] => [(key, value)]
  | (name, old) :: rest =>
      if name = key then (name, value) :: rest else (name, old) :: assign rest key value

/-- `fail` in front of `rest`, of a source of `total` units. -/
def fail {α : Type} (total : Nat) (rest : JsString) (reason : String) : Except Failure α :=
  .error (.rejected reason (total - rest.length))

/-! ## Between the tokens -/

/-- What follows the first `*/`. -/
def behindComment : JsString → Option JsString
  | [] => none
  | c :: rest =>
      if [star, slash].isPrefixOf (c :: rest) then some (rest.drop 1) else behindComment rest

/-- What follows the first line end. -/
def behindLine : JsString → JsString
  | [] => []
  | c :: rest => if c = newline then rest else behindLine rest

theorem behindComment_length {text rest : JsString} (h : behindComment text = some rest) :
    rest.length ≤ text.length := by
  induction text with
  | nil => cases h
  | cons c text ih =>
      rw [behindComment] at h
      split at h
      · cases h
        simp only [List.length_drop, List.length_cons]
        omega
      · have := ih h
        simp only [List.length_cons]
        omega

theorem behindLine_length (text : JsString) : (behindLine text).length ≤ text.length := by
  induction text with
  | nil => simp [behindLine]
  | cons c text ih =>
      rw [behindLine]
      split
      · simp
      · simp only [List.length_cons]
        omega

def skip (total : Nat) (text : JsString) : Except Failure JsString :=
  match text with
  | [] => .ok []
  | c :: rest =>
      if Whitespace.isSpaceUnit c then skip total rest
      else if [slash, star].isPrefixOf (c :: rest) then
        match _h : behindComment (rest.drop 1) with
        | none => fail total (c :: rest) "unterminated comment"
        | some behind => skip total behind
      else if [slash, slash].isPrefixOf (c :: rest) then skip total (behindLine (rest.drop 1))
      else .ok (c :: rest)
termination_by text.length
decreasing_by
  · simp
  · have := behindComment_length _h
    simp only [List.length_drop, List.length_cons] at this ⊢
    omega
  · have := behindLine_length (rest.drop 1)
    simp only [List.length_drop, List.length_cons] at this ⊢
    omega

def expect (total : Nat) (char : UInt16) (text : JsString) : Except Failure JsString := do
  let text ← skip total text
  if text.head? = some char then return text.tail
  else fail total text s!"expected \"{Char.ofNat char.toNat}\""

/-! ## Strings -/

/-- The units of a quoted string behind its first quote, or how far a string without an end takes
the reader beyond the source. -/
def quotedLength : JsString → Except Nat Nat
  | [] => .error 0
  | [c] => if c = quote then .ok 1 else .error (if c = backslash then 1 else 0)
  | c :: d :: rest =>
      if c = quote then .ok 1
      else if c = backslash then (quotedLength rest).map (· + 2)
      else (quotedLength (d :: rest)).map (· + 1)

/-- The units of a group, from its bracket on, at a depth of `depth` brackets. -/
def groupLength (depth : Nat) : JsString → Nat
  | [] => 0
  | c :: rest =>
      let depth := if c = openParen then depth + 1 else if c = closeParen then depth - 1 else depth
      if depth = 0 then 1 else groupLength depth rest + 1

/-- The units of a literal, of which the next `grouped` belong to a group. -/
def literalLength (grouped : Nat) : JsString → Nat
  | [] => 0
  | c :: rest =>
      match grouped with
      | grouped + 1 => literalLength grouped rest + 1
      | 0 =>
          if isLiteralEnd c then 0
          else if [dollar, openParen].isPrefixOf (c :: rest) then
            literalLength (groupLength 0 rest) rest + 1
          else literalLength 0 rest + 1

/-- A string and what follows it. -/
def string (total : Nat) (text : JsString) : Except Failure (JsString × JsString) :=
  if text.head? = some quote then
    match quotedLength text.tail with
    | .ok length => .ok (text.take (length + 1), text.drop (length + 1))
    | .error beyond => .error (.rejected "unterminated string" (total + beyond))
  else if literalLength 0 text = 0 then fail total text "expected a value"
  else .ok (text.take (literalLength 0 text), text.drop (literalLength 0 text))

/-! ## Values -/

mutual

/-- A value and what follows it. -/
def value (total : Nat) : Nat → JsString → Except Failure (Tree × JsString)
  | 0, _ => .error .exhausted
  | fuel + 1, text => do
      let text ← skip total text
      if text.head? = some openBrace then dictionary total fuel [] text.tail
      else if text.head? = some openParen then list total fuel [] text.tail
      else
        let (written, rest) ← string total text
        return (.text written, rest)

/-- The loop over the members of a dictionary, behind its bracket or a member. -/
def dictionary (total : Nat) :
    Nat → List (JsString × Tree) → JsString → Except Failure (Tree × JsString)
  | 0, _, _ => .error .exhausted
  | fuel + 1, result, text => do
      let text ← skip total text
      if text.head? = some closeBrace then return (.dictionary result, text.tail)
      else
        let (key, text) ← string total text
        let text ← expect total equals text
        let (member, text) ← value total fuel text
        let text ← expect total semicolon text
        dictionary total fuel (assign result key member) text

/-- The loop over the items of a list, behind its bracket or a comma. -/
def list (total : Nat) : Nat → List Tree → JsString → Except Failure (Tree × JsString)
  | 0, _, _ => .error .exhausted
  | fuel + 1, result, text => do
      let text ← skip total text
      if text.head? = some closeParen then return (.list result, text.tail)
      else
        let (item, text) ← value total fuel text
        let text ← skip total text
        if text.head? = some comma then list total fuel (result ++ [item]) text.tail
        else if text.head? = some closeParen then return (.list (result ++ [item]), text.tail)
        else fail total text "expected \",\" or \")\""

end

/-- `parseDocument` -/
def parseNativeXcodeSyntax (source : JsString) : Except Failure Tree := do
  let (result, rest) ← value source.length (2 * source.length + 1) source
  let rest ← skip source.length rest
  if rest ≠ [] then fail source.length rest "unexpected text after the project"
  else return result

end Stim.NativeXcodeSyntax
