import Stim.Lib.JsString

/-!
# JSON text

The grammar of JSON over UTF-16 code units, and `parse`, which reads a text the way `JSON.parse`
does.  A number is kept as its text, of which its value is a function, and an object as its members
in the order of the text: of members of one name the last counts.
-/

namespace Stim

inductive Json where
  | null
  | bool (b : Bool)
  | number (token : JsString)
  | string (s : JsString)
  | array (elements : List Json)
  | object (members : List (JsString × Json))

namespace Json

/-- The value of a name in an object. -/
def lookup (members : List (JsString × Json)) (name : JsString) : Option Json :=
  (members.reverse.find? (·.1 == name)).map Prod.snd

/-! ## Code units -/

abbrev quotationMark : UInt16 := 0x22

abbrev backslash : UInt16 := 0x5C

abbrev leftBracket : UInt16 := 0x5B

abbrev rightBracket : UInt16 := 0x5D

abbrev leftBrace : UInt16 := 0x7B

abbrev rightBrace : UInt16 := 0x7D

abbrev comma : UInt16 := 0x2C

abbrev colon : UInt16 := 0x3A

def isSpace (u : UInt16) : Bool := u == 0x20 || u == 9 || u == 10 || u == 13

def Spaces (text : JsString) : Prop := ∀ u ∈ text, isSpace u = true

/-- What may follow a value. -/
def endsValue (u : UInt16) : Bool :=
  isSpace u || u == comma || u == rightBracket || u == rightBrace

def isDigit (u : UInt16) : Bool := 0x30 ≤ u.toNat && u.toNat ≤ 0x39

/-! ## Literals and numbers -/

def isDigits (text : JsString) : Bool := !text.isEmpty && text.all isDigit

def isExponent : JsString → Bool
  | [] => true
  | e :: rest =>
      (e == 0x65 || e == 0x45) &&
        match rest with
        | [] => false
        | sign :: digits =>
            if sign = 0x2B ∨ sign = 0x2D then isDigits digits else isDigits (sign :: digits)

def isFraction : JsString → Bool
  | [] => true
  | point :: rest =>
      if point = 0x2E then
        isDigits (rest.takeWhile isDigit) && isExponent (rest.dropWhile isDigit)
      else isExponent (point :: rest)

def isUnsigned : JsString → Bool
  | [] => false
  | first :: rest =>
      if first = 0x30 then isFraction rest
      else isDigit first && isFraction (rest.dropWhile isDigit)

def isNumber : JsString → Bool
  | [] => false
  | first :: rest => if first = 0x2D then isUnsigned rest else isUnsigned (first :: rest)

/-- `null`, `true`, `false` and the numbers. -/
def plainValue (token : JsString) : Option Json :=
  if token = [0x6E, 0x75, 0x6C, 0x6C] then some .null
  else if token = [0x74, 0x72, 0x75, 0x65] then some (.bool true)
  else if token = [0x66, 0x61, 0x6C, 0x73, 0x65] then some (.bool false)
  else if isNumber token then some (.number token)
  else none

/-! ## Strings -/

def hexValue (u : UInt16) : Option Nat :=
  if 0x30 ≤ u.toNat ∧ u.toNat ≤ 0x39 then some (u.toNat - 0x30)
  else if 0x41 ≤ u.toNat ∧ u.toNat ≤ 0x46 then some (u.toNat - 55)
  else if 0x61 ≤ u.toNat ∧ u.toNat ≤ 0x66 then some (u.toNat - 87)
  else none

def hexUnit (a b c d : UInt16) : Option UInt16 :=
  match hexValue a, hexValue b, hexValue c, hexValue d with
  | some a, some b, some c, some d => some (UInt16.ofNat (4096 * a + 256 * b + 16 * c + d))
  | _, _, _, _ => none

/-- The unit that a backslash and `u` stand for. -/
def unescape (u : UInt16) : Option UInt16 :=
  if u = 0x22 ∨ u = 0x5C ∨ u = 0x2F then some u
  else if u = 0x62 then some 8
  else if u = 0x66 then some 12
  else if u = 0x6E then some 10
  else if u = 0x72 then some 13
  else if u = 0x74 then some 9
  else none

/-- The text between quotation marks, and the string it stands for. -/
inductive Chars : JsString → JsString → Prop where
  | nil : Chars [] []
  | plain {u : UInt16} {text s : JsString} (hquote : u ≠ quotationMark) (hslash : u ≠ backslash)
      (hcontrol : ¬ u.toNat < 0x20) (h : Chars text s) : Chars (u :: text) (u :: s)
  | escape {c u : UInt16} {text s : JsString} (hu : unescape c = some u) (h : Chars text s) :
      Chars (backslash :: c :: text) (u :: s)
  | unicode {a b c d u : UInt16} {text s : JsString} (hu : hexUnit a b c d = some u)
      (h : Chars text s) : Chars (backslash :: 0x75 :: a :: b :: c :: d :: text) (u :: s)

/-! ## Values -/

inductive Node where
  | value (v : Json)
  | elements (vs : List Json)
  | members (ms : List (JsString × Json))

/-- The texts of a value, of the elements between brackets and of the members between braces. -/
inductive Grammar : Node → JsString → Prop where
  | plain {token : JsString} {v : Json} (h : plainValue token = some v) : Grammar (.value v) token
  | string {text s : JsString} (h : Chars text s) :
      Grammar (.value (.string s)) (quotationMark :: text ++ [quotationMark])
  | emptyArray {space : JsString} (h : Spaces space) :
      Grammar (.value (.array [])) (leftBracket :: space ++ [rightBracket])
  | array {text : JsString} {vs : List Json} (h : Grammar (.elements vs) text) :
      Grammar (.value (.array vs)) (leftBracket :: text ++ [rightBracket])
  | emptyObject {space : JsString} (h : Spaces space) :
      Grammar (.value (.object [])) (leftBrace :: space ++ [rightBrace])
  | object {text : JsString} {ms : List (JsString × Json)} (h : Grammar (.members ms) text) :
      Grammar (.value (.object ms)) (leftBrace :: text ++ [rightBrace])
  | element {before text after : JsString} {v : Json} (hbefore : Spaces before)
      (h : Grammar (.value v) text) (hafter : Spaces after) :
      Grammar (.elements [v]) (before ++ text ++ after)
  | elements {before text after more : JsString} {v : Json} {vs : List Json}
      (hbefore : Spaces before) (h : Grammar (.value v) text) (hafter : Spaces after)
      (hmore : Grammar (.elements vs) more) :
      Grammar (.elements (v :: vs)) (before ++ text ++ after ++ comma :: more)
  | member {before key beforeColon afterColon text after name : JsString} {v : Json}
      (hbefore : Spaces before) (hkey : Chars key name) (hbeforeColon : Spaces beforeColon)
      (hafterColon : Spaces afterColon) (h : Grammar (.value v) text) (hafter : Spaces after) :
      Grammar (.members [(name, v)])
        (before ++ (quotationMark :: key ++ [quotationMark]) ++ beforeColon ++
          colon :: (afterColon ++ text ++ after))
  | members {before key beforeColon afterColon text after more name : JsString} {v : Json}
      {ms : List (JsString × Json)} (hbefore : Spaces before) (hkey : Chars key name)
      (hbeforeColon : Spaces beforeColon) (hafterColon : Spaces afterColon)
      (h : Grammar (.value v) text) (hafter : Spaces after) (hmore : Grammar (.members ms) more) :
      Grammar (.members ((name, v) :: ms))
        (before ++ (quotationMark :: key ++ [quotationMark]) ++ beforeColon ++
          colon :: (afterColon ++ text ++ after ++ comma :: more))

/-! ## Reading a text -/

/-- A string from behind its opening quotation mark: what it stands for, and what follows it. -/
def readChars : JsString → Option (JsString × JsString)
  | [] => none
  | u :: rest =>
      if u = quotationMark then some ([], rest)
      else if u = backslash then
        match rest with
        | [] => none
        | c :: rest =>
            if c = 0x75 then
              match rest with
              | a :: b :: c :: d :: rest =>
                  match hexUnit a b c d with
                  | some u => (readChars rest).map fun (s, rest) => (u :: s, rest)
                  | none => none
              | _ => none
            else match unescape c with
              | some u => (readChars rest).map fun (s, rest) => (u :: s, rest)
              | none => none
      else if u.toNat < 0x20 then none
      else (readChars rest).map fun (s, rest) => (u :: s, rest)

def skipSpaces (text : JsString) : JsString := text.dropWhile isSpace

/-- The name of a member and what stands behind its colon. -/
def readName (text : JsString) : Option (JsString × JsString) :=
  match skipSpaces text with
  | [] => none
  | u :: rest =>
      if u = quotationMark then
        match readChars rest with
        | none => none
        | some (name, rest) =>
            match skipSpaces rest with
            | [] => none
            | u :: rest => if u = colon then some (name, rest) else none
      else none

mutual

def parseValue : Nat → JsString → Option (Json × JsString)
  | 0, _ => none
  | _ + 1, [] => none
  | fuel + 1, u :: rest =>
      if u = quotationMark then (readChars rest).map fun (s, rest) => (.string s, rest)
      else if u = leftBracket then
        match skipSpaces rest with
        | [] => none
        | first :: behind =>
            if first = rightBracket then some (.array [], behind)
            else (parseElements fuel rest).map fun (vs, rest) => (.array vs, rest)
      else if u = leftBrace then
        match skipSpaces rest with
        | [] => none
        | first :: behind =>
            if first = rightBrace then some (.object [], behind)
            else (parseMembers fuel rest).map fun (ms, rest) => (.object ms, rest)
      else (plainValue ((u :: rest).takeWhile (!endsValue ·))).map fun v =>
        (v, (u :: rest).dropWhile (!endsValue ·))

def parseElements : Nat → JsString → Option (List Json × JsString)
  | 0, _ => none
  | fuel + 1, text =>
      match parseValue fuel (skipSpaces text) with
      | none => none
      | some (v, rest) =>
          match skipSpaces rest with
          | [] => none
          | u :: rest =>
              if u = rightBracket then some ([v], rest)
              else if u = comma then
                (parseElements fuel rest).map fun (vs, rest) => (v :: vs, rest)
              else none

def parseMembers : Nat → JsString → Option (List (JsString × Json) × JsString)
  | 0, _ => none
  | fuel + 1, text =>
      match readName text with
      | none => none
      | some (name, rest) =>
          match parseValue fuel (skipSpaces rest) with
          | none => none
          | some (v, rest) =>
              match skipSpaces rest with
              | [] => none
              | u :: rest =>
                  if u = rightBrace then some ([(name, v)], rest)
                  else if u = comma then
                    (parseMembers fuel rest).map fun (ms, rest) => ((name, v) :: ms, rest)
                  else none

end

/-- `JSON.parse`; `none` is a syntax error. -/
def parse (text : JsString) : Option Json :=
  match parseValue (text.length + 1) (skipSpaces text) with
  | none => none
  | some (v, rest) => if (skipSpaces rest).isEmpty then some v else none

end Json
end Stim
