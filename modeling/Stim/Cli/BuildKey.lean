import Mathlib.Data.List.Lex
import Mathlib.Data.List.Sort
import Stim.Lib.JsString
import Stim.Lib.OrderedMap

/-!
# The key of a build

`packages/stim-cli/src/fingerprint/key.ts`: the canonical JSON text of a value, the merge of the
inputs that the stages found, the preimage and its hash, and what changed between two input lists.

A value is what `JSON.parse` gives or what the stages build of plain objects and arrays, with
members that may be undefined; bigints, functions and objects of a class are left out.  The members
of an object have names of their own.  How a number is written is a parameter, and so is SHA-256.
-/

namespace Stim.BuildKey

/-- How a number is written: what is relied on of `String(n)`. -/
structure Numerals (ν : Type) where
  isFinite : ν → Bool
  text : ν → List Char
  ofNat : Nat → ν
  ofNat_finite : ∀ n, isFinite (ofNat n) = true
  nonempty : ∀ n, isFinite n = true → text n ≠ []
  legal : ∀ n, isFinite n = true → ∀ c ∈ text n, c.isDigit ∨ c ∈ ['-', '+', '.', 'e']

inductive JsValue (ν : Type) where
  | null
  | undefined
  | bool (b : Bool)
  | number (n : ν)
  | string (s : JsString)
  | array (items : List (JsValue ν))
  | object (members : List (JsString × JsValue ν))

def byCodeUnit (a b : JsString) : Prop := JsString.units a ≤ JsString.units b

instance (a b : JsString) : Decidable (byCodeUnit a b) :=
  inferInstanceAs (Decidable (_ ≤ (_ : List Nat)))

/-! ## Canonical JSON -/

section

variable {ν : Type} (numerals : Numerals ν)

mutual

/-- JSON with the keys of objects in code-unit order and no whitespace. -/
def canonicalJson : JsValue ν → Except String (List Char)
  | .null => .ok "null".toList
  | .bool b => .ok (if b then "true".toList else "false".toList)
  | .string s => .ok (JsString.quote s)
  | .number n =>
      if numerals.isFinite n then .ok (numerals.text n)
      else .error s!"canonical JSON has no form for {String.ofList (numerals.text n)}"
  | .array items => do
      let texts ← canonicalItems items
      .ok ('[' :: [','].intercalate texts ++ [']'])
  | .object members => do
      -- the sort reads the names only
      let entries ← canonicalEntries members
      let sorted := entries.insertionSort fun a b => byCodeUnit a.1 b.1
      .ok ('\x7b' :: [','].intercalate
        (sorted.map fun (key, text) => JsString.quote key ++ ':' :: text) ++ ['\x7d'])
  | .undefined => .error "canonical JSON has no form for a undefined"

def canonicalItems : List (JsValue ν) → Except String (List (List Char))
  | [] => .ok []
  | item :: items => do
      let text ← canonicalJson item
      let texts ← canonicalItems items
      .ok (text :: texts)

/-- The texts of an object's members, without those that are undefined. -/
def canonicalEntries : List (JsString × JsValue ν) → Except String (List (JsString × List Char))
  | [] => .ok []
  | (_, .undefined) :: members => canonicalEntries members
  | (key, item) :: members => do
      let text ← canonicalJson item
      let entries ← canonicalEntries members
      .ok ((key, text) :: entries)

end

end

/-! ## Inputs -/

inductive InputKind where
  | file
  | package
  | config
  | autolinking
  | manifest
  | env
  deriving DecidableEq, Repr

inductive InputMode where
  | identity
  | content
  deriving DecidableEq, Repr

inductive GitLabel where
  | tracked
  | untracked
  | ignored
  deriving DecidableEq, Repr

structure Input where
  name : JsString
  kind : InputKind
  hash : JsString
  version : Option JsString := none
  mode : Option InputMode := none
  git : Option GitLabel := none
  deriving DecidableEq

inductive Platform where
  | ios
  | android
  deriving DecidableEq, Repr

inductive NativeMode where
  | tracked
  | generated
  deriving DecidableEq, Repr

structure Layout where
  projectPath : Option JsString
  gradleRoot : Option JsString
  module : Option JsString
  deriving DecidableEq

def FINGERPRINT_SCHEMA : Nat := 1

def disagree (a b : Input) : Prop := a.kind ≠ b.kind ∨ a.hash ≠ b.hash

instance (a b : Input) : Decidable (disagree a b) := inferInstanceAs (Decidable (_ ∨ _))

/-- The loop of `mergeInputs`: the first input of each name. -/
def byName : OrderedMap JsString Input → List Input → Except JsString (OrderedMap JsString Input)
  | known, [] => .ok known
  | known, input :: inputs =>
      match known.get input.name with
      | none => byName (known.set input.name input) inputs
      | some first =>
          if disagree first input then
            .error (JsString.ofString "two fingerprint inputs named " ++ input.name ++
              JsString.ofString " disagree")
          else byName known inputs

def sortByName (inputs : List Input) : List Input :=
  inputs.insertionSort fun a b => byCodeUnit a.name b.name

/-- The rows sorted by name, with rows two stages both produced merged. -/
def mergeInputs (inputs : List Input) : Except JsString (List Input) :=
  (byName OrderedMap.empty inputs).map fun known => sortByName known.values

/-! ## The preimage and its hash -/

structure Preimage where
  schema : Nat
  platform : Platform
  native : NativeMode
  layout : Layout
  inputs : List (JsString × InputKind × JsString)
  deriving DecidableEq

def row (input : Input) : JsString × InputKind × JsString := (input.name, input.kind, input.hash)

def preimage (platform : Platform) (native : NativeMode) (layout : Layout) (inputs : List Input) :
    Except JsString Preimage :=
  (mergeInputs inputs).map fun merged =>
    { schema := FINGERPRINT_SCHEMA, platform, native, layout, inputs := merged.map row }

def InputKind.text : InputKind → String
  | .file => "file"
  | .package => "package"
  | .config => "config"
  | .autolinking => "autolinking"
  | .manifest => "manifest"
  | .env => "env"

def Platform.text : Platform → String
  | .ios => "ios"
  | .android => "android"

def NativeMode.text : NativeMode → String
  | .tracked => "tracked"
  | .generated => "generated"

section

variable {ν : Type} (numerals : Numerals ν)

def textValue (text : String) : JsValue ν := .string (JsString.ofString text)

def orNull : Option JsString → JsValue ν
  | none => .null
  | some s => .string s

def rowValue (row : JsString × InputKind × JsString) : JsValue ν :=
  .array [.string row.1, textValue row.2.1.text, .string row.2.2]

/-- The preimage as the plain object that it is. -/
def Preimage.value (preimage : Preimage) : JsValue ν :=
  .object [
    (JsString.ofString "schema", .number (numerals.ofNat preimage.schema)),
    (JsString.ofString "platform", textValue preimage.platform.text),
    (JsString.ofString "native", textValue preimage.native.text),
    (JsString.ofString "layout", .object [
      (JsString.ofString "projectPath", orNull preimage.layout.projectPath),
      (JsString.ofString "gradleRoot", orNull preimage.layout.gradleRoot),
      (JsString.ofString "module", orNull preimage.layout.module)]),
    (JsString.ofString "inputs", .array (preimage.inputs.map rowValue))]

def preimageHash (sha256 : List Char → String) (preimage : Preimage) : Except String String :=
  (canonicalJson numerals (preimage.value numerals)).map sha256

end

/-! ## What changed -/

inductive Change where
  | added
  | removed
  | changed
  deriving DecidableEq, Repr

structure InputChange where
  name : JsString
  kind : InputKind
  change : Change
  deriving DecidableEq

/-- The loop of `diffInputs` over the two sorted lists. -/
def diffSorted : List Input → List Input → List InputChange
  | [], [] => []
  | left :: a, [] => ⟨left.name, left.kind, .removed⟩ :: diffSorted a []
  | [], right :: b => ⟨right.name, right.kind, .added⟩ :: diffSorted [] b
  | left :: a, right :: b =>
      if left.name.units < right.name.units then
        ⟨left.name, left.kind, .removed⟩ :: diffSorted a (right :: b)
      else if right.name.units < left.name.units then
        ⟨right.name, right.kind, .added⟩ :: diffSorted (left :: a) b
      else if disagree left right then
        ⟨right.name, right.kind, .changed⟩ :: diffSorted a b
      else diffSorted a b
termination_by a b => a.length + b.length

/-- What changed between two input lists, in name order. -/
def diffInputs (before after : List Input) : List InputChange :=
  diffSorted (sortByName before) (sortByName after)

end Stim.BuildKey
