import Mathlib.Algebra.GroupWithZero.Nat
import Mathlib.Data.List.Forall2
import Stim.Lib.ShellWords

/-!
# Typing on an Android device

`adbInputArgs` of `packages/server/src/control.ts`: the `adb shell` argument lists that type a text
or press a button on an emulator without a hardware keyboard, and the texts that `parseInput` lets
through to it.  What the device does with such a list is stated beside it: `adb shell` joins its
arguments into one command of the device's shell, `input text` reads `%s` as a space, and
`input keyevent` presses its keys.

The keys and the modifiers of a chord are modelled as far as their argument list; what a button or
a chord does on the device is not.
-/

namespace Stim.Server.AdbInput

def MAX_INPUT_TEXT : Nat := 256

inductive InputButton where
  | home
  | lock
  | back
  | appSwitch
  deriving DecidableEq, Repr

inductive InputKey where
  | escape
  | tab
  | returnKey
  | backspace
  | left
  | right
  | up
  | down
  /-- a letter or a digit, by its name -/
  | symbol (name : Char)
  deriving DecidableEq, Repr

inductive KeyModifier where
  | command
  | shift
  | option
  | control
  deriving DecidableEq, Repr

inductive InputCommand where
  | text (text : String)
  | button (button : InputButton)
  | key (key : InputKey) (modifiers : List KeyModifier)
  deriving DecidableEq, Repr

structure Refusal where
  code : String
  message : String
  deriving DecidableEq, Repr

/-! ## What the input parser accepts -/

/-- `[\n\t\b]` -/
def isKey (c : Char) : Bool := c == '\n' || c == '\t' || c == '\x08'

/-- `TEXT` -/
def isText (text : List Char) : Bool :=
  !text.isEmpty && text.all fun c => (0x20 ≤ c.toNat && c.toNat ≤ 0x7e) || isKey c

/-- The code units of a text. -/
def units (text : List Char) : Nat :=
  (text.map fun c => if c.toNat < 0x10000 then 1 else 2).sum

/-- `parseInput` of `input.text`, past the lookup of the session; `none` is a text that is no
string. -/
def parseInput (session : String) (text : Option String) :
    Except Refusal (String × InputCommand) :=
  let refusal : Refusal := ⟨"bad-request",
    s!"input.text takes 1 to {MAX_INPUT_TEXT} printable ASCII characters, with \\n, \\t and \\b."⟩
  match text with
  | none => .error refusal
  | some text =>
      if units text.toList = 0 ∨ MAX_INPUT_TEXT < units text.toList ∨ isText text.toList = false then
        .error refusal
      else .ok (session, .text text)

/-! ## The argument lists -/

def androidButton : InputButton → String
  | .home => "KEYCODE_HOME"
  | .back => "KEYCODE_BACK"
  | .appSwitch => "KEYCODE_APP_SWITCH"
  | .lock => "KEYCODE_POWER"

/-- The key events of `ANDROID_KEYS` that type a character. -/
def androidKey (c : Char) : String :=
  if c = '\n' then "KEYCODE_ENTER" else if c = '\t' then "KEYCODE_TAB" else "KEYCODE_DEL"

/-- Command acts as Control on Android. -/
def androidModifier : KeyModifier → String
  | .command => "KEYCODE_CTRL_LEFT"
  | .control => "KEYCODE_CTRL_LEFT"
  | .option => "KEYCODE_ALT_LEFT"
  | .shift => "KEYCODE_SHIFT_LEFT"

def androidKeycode : InputKey → String
  | .escape => "KEYCODE_ESCAPE"
  | .tab => "KEYCODE_TAB"
  | .returnKey => "KEYCODE_ENTER"
  | .backspace => "KEYCODE_DEL"
  | .left => "KEYCODE_DPAD_LEFT"
  | .right => "KEYCODE_DPAD_RIGHT"
  | .up => "KEYCODE_DPAD_UP"
  | .down => "KEYCODE_DPAD_DOWN"
  | .symbol name => "KEYCODE_" ++ String.singleton name.toUpper

/-- A key before the parts of a text: it joins a run of keys that the text begins with. -/
def addKey (c : Char) : List (List Char) → List (List Char)
  | [] :: keys :: parts => [] :: (c :: keys) :: parts
  | parts => [] :: [c] :: parts

def addPlain (c : Char) : List (List Char) → List (List Char)
  | part :: parts => (c :: part) :: parts
  | [] => [[c]]

/-- `text.split(/([\n\t\b]+)/)`: texts and runs of keys by turns, from a text to a text. -/
def splitKeys : List Char → List (List Char)
  | [] => [[]]
  | c :: rest => if isKey c then addKey c (splitKeys rest) else addPlain c (splitKeys rest)

/-- `part.replaceAll(' ', '%s')` -/
def blanksEncoded (part : List Char) : List Char :=
  part.flatMap fun c => if c = ' ' then ['%', 's'] else [c]

def textArgs (part : List Char) : List (List String) :=
  if part.isEmpty then []
  else if part.all isKey then [["shell", "input", "keyevent"] ++ part.map androidKey]
  else [["shell", "input", "text", String.ofList (Shell.quote (blanksEncoded part))]]

def adbInputArgs : InputCommand → List (List String)
  | .button button => [["shell", "input", "keyevent", androidButton button]]
  | .key key modifiers =>
      let modifiers := (modifiers.map androidModifier).eraseDups
      [["shell", "input"] ++
        (if modifiers.isEmpty then ["keyevent"] else "keycombination" :: modifiers) ++
        [androidKeycode key]]
  | .text text => (splitKeys text.toList).flatMap textArgs

/-! ## What the device types -/

/-- What `input text` types: each `%s` is a space. -/
def inputText : List Char → List Char
  | '%' :: 's' :: rest => ' ' :: inputText rest
  | c :: rest => c :: inputText rest
  | [] => []

def keyTypes (code : List Char) : Option Char :=
  if code = "KEYCODE_ENTER".toList then some '\n'
  else if code = "KEYCODE_TAB".toList then some '\t'
  else if code = "KEYCODE_DEL".toList then some '\x08'
  else none

/-- What a command of the device's shell types. -/
def commandTypes : List (List Char) → Option (List Char)
  | input :: verb :: args =>
      if input = "input".toList ∧ verb = "keyevent".toList then args.mapM keyTypes
      else if input = "input".toList ∧ verb = "text".toList then
        match args with
        | [argument] => some (inputText argument)
        | _ => none
      else none
  | _ => none

/-- `adb` joins what follows `shell` into one command line. -/
def adbTypes : List String → Option (List Char)
  | [] => none
  | verb :: args =>
      if verb = "shell" then
        (Shell.words ([' '].intercalate (args.map String.toList))).bind commandTypes
      else none

/-- What the argument lists type, one after the other. -/
def typed (calls : List (List String)) : Option (List Char) :=
  (calls.mapM adbTypes).map List.flatten

/-! ## The parts of a text -/

/-- The parts are texts without keys and runs of keys by turns, and make up the text. -/
inductive Parted : List Char → List (List Char) → Prop where
  | last {part : List Char} (hpart : ∀ c ∈ part, isKey c = false) : Parted part [part]
  | next {part keys text : List Char} {parts : List (List Char)}
      (hpart : ∀ c ∈ part, isKey c = false) (hne : keys ≠ []) (hkeys : ∀ c ∈ keys, isKey c = true)
      (hrest : Parted text parts) : Parted (part ++ (keys ++ text)) (part :: keys :: parts)

variable {c : Char} {parts : List (List Char)}

variable {text : List Char}

theorem parted_addKey (hkey : isKey c = true) (h : Parted text parts) :
    Parted (c :: text) (addKey c parts) := by
  have hnil : ∀ d ∈ ([] : List Char), isKey d = false := fun _ hd => absurd hd List.not_mem_nil
  have hfirst : Parted (c :: text) ([] :: [c] :: parts) :=
    @Parted.next [] [c] text parts hnil (List.cons_ne_nil _ _)
      (fun d hd => by rw [List.mem_singleton.mp hd]; exact hkey) h
  cases h with
  | last hpart => cases text <;> exact hfirst
  | @next part keys text parts hpart hne hkeys hrest =>
      cases part with
      | nil =>
          -- the key stands before a run of keys, and joins it
          refine Parted.next hpart (List.cons_ne_nil c keys) (fun d hd => ?_) hrest
          rcases List.mem_cons.mp hd with rfl | hd
          · exact hkey
          · exact hkeys d hd
      | cons d part => exact hfirst

theorem parted_addPlain (hplain : isKey c = false) (h : Parted text parts) :
    Parted (c :: text) (addPlain c parts) := by
  have hcons : ∀ {part : List Char}, (∀ d ∈ part, isKey d = false) →
      ∀ d ∈ c :: part, isKey d = false := by
    intro part hpart d hd
    rcases List.mem_cons.mp hd with rfl | hd
    · exact hplain
    · exact hpart d hd
  cases h with
  | last hpart => exact .last (hcons hpart)
  | next hpart hne hkeys hrest => exact .next (hcons hpart) hne hkeys hrest

theorem parted_splitKeys (text : List Char) : Parted text (splitKeys text) := by
  induction text with
  | nil => exact .last (fun _ hc => absurd hc List.not_mem_nil)
  | cons c text ih =>
      unfold splitKeys
      cases hkey : isKey c with
      | true => exact parted_addKey hkey ih
      | false => exact parted_addPlain hkey ih

/-! ## What is typed -/

theorem inputText_cons (h : c ≠ '%') (rest : List Char) :
    inputText (c :: rest) = c :: inputText rest := by
  rw [inputText]
  exact fun _ hc => absurd hc h

theorem inputText_percent {rest : List Char} (h : rest.head? ≠ some 's') :
    inputText ('%' :: rest) = '%' :: inputText rest := by
  rw [inputText]
  rintro more - rfl
  exact h rfl

/-- The device undoes the encoding of blanks, and reads the text's own `%s` as blanks too. -/
theorem inputText_blanksEncoded (part : List Char) :
    inputText (blanksEncoded part) = inputText part := by
  have hcons : ∀ (c : Char) rest,
      blanksEncoded (c :: rest) = (if c = ' ' then ['%', 's'] else [c]) ++ blanksEncoded rest :=
    fun _ _ => rfl
  fun_induction inputText part with
  | case1 rest ih =>
      show inputText ('%' :: 's' :: blanksEncoded rest) = _
      rw [inputText, ih]
  | case2 c rest hnone ih =>
      rw [hcons]
      by_cases hblank : c = ' '
      · subst hblank
        show inputText ('%' :: 's' :: blanksEncoded rest) = _
        rw [inputText, ih]
      rw [if_neg hblank, List.singleton_append]
      by_cases hpercent : c = '%'
      · subst hpercent
        -- what follows the `%` does not begin with `s`, encoded or not
        rw [inputText_percent, ih]
        cases rest with
        | nil => simp [blanksEncoded]
        | cons d rest =>
            rw [hcons]
            by_cases hd : d = ' '
            · simp [hd]
            · rw [if_neg hd]
              rintro ⟨⟩
              exact hnone rest rfl rfl
      · rw [inputText_cons hpercent, ih]
  | case3 => rfl

theorem ne_percent_of_isKey (h : isKey c = true) : c ≠ '%' := by
  rintro rfl
  exact absurd h (by decide)

theorem ne_s_of_isKey (h : isKey c = true) : c ≠ 's' := by
  rintro rfl
  exact absurd h (by decide)

theorem inputText_keys {keys : List Char} (hkeys : ∀ c ∈ keys, isKey c = true)
    (rest : List Char) : inputText (keys ++ rest) = keys ++ inputText rest := by
  induction keys with
  | nil => rfl
  | cons c keys ih =>
      rw [List.cons_append, inputText_cons (ne_percent_of_isKey (hkeys c (by simp))),
        ih fun d hd => hkeys d (by simp [hd]), List.cons_append]

/-- No `%s` begins before a key and ends after it. -/
theorem inputText_append (part : List Char) {rest : List Char} (h : rest.head? ≠ some 's') :
    inputText (part ++ rest) = inputText part ++ inputText rest := by
  fun_induction inputText part with
  | case1 more ih =>
      show inputText ('%' :: 's' :: (more ++ rest)) = _
      rw [inputText, ih, List.cons_append]
  | case2 c more hnone ih =>
      rw [List.cons_append, List.cons_append]
      by_cases hpercent : c = '%'
      · subst hpercent
        rw [inputText_percent, ih]
        cases more with
        | nil => exact h
        | cons d more =>
            rintro ⟨⟩
            exact hnone more rfl rfl
      · rw [inputText_cons hpercent, ih]
  | case3 => rfl

theorem adbTypes_words {args : List String} {texts words : List (List Char)}
    (htexts : args.map String.toList = texts) (h : List.Forall₂ Shell.Reads texts words) :
    adbTypes ("shell" :: args) = commandTypes words := by
  subst htexts
  show (Shell.words _).bind commandTypes = _
  rw [Shell.words_intercalate h, Option.bind_some]

theorem reads_input : Shell.Reads "input".toList "input".toList :=
  Shell.reads_plain (by decide) (List.all_eq_true.mp (by decide))

theorem reads_text : Shell.Reads "text".toList "text".toList :=
  Shell.reads_plain (by decide) (List.all_eq_true.mp (by decide))

theorem reads_keyevent : Shell.Reads "keyevent".toList "keyevent".toList :=
  Shell.reads_plain (by decide) (List.all_eq_true.mp (by decide))

theorem keyTypes_androidKey (hkey : isKey c = true) :
    Shell.Reads (androidKey c).toList (androidKey c).toList ∧
      keyTypes (androidKey c).toList = some c := by
  simp only [isKey, Bool.or_eq_true, beq_iff_eq] at hkey
  obtain (rfl | rfl) | rfl := hkey
  all_goals exact ⟨Shell.reads_plain (by decide) (List.all_eq_true.mp (by decide)), by decide⟩

theorem typed_keys {keys : List Char} (hne : keys ≠ []) (hkeys : ∀ c ∈ keys, isKey c = true) :
    (textArgs keys).mapM adbTypes = some [keys] := by
  have hreads : List.Forall₂ Shell.Reads (keys.map fun c => (androidKey c).toList)
      (keys.map fun c => (androidKey c).toList) := by
    rw [List.forall₂_same, List.forall_mem_map]
    exact fun c hc => (keyTypes_androidKey (hkeys c hc)).1
  have htypes : (keys.map fun c => (androidKey c).toList).mapM keyTypes = some keys := by
    clear hne hreads
    induction keys with
    | nil => rfl
    | cons c keys ih =>
        rw [List.map_cons, List.mapM_cons, (keyTypes_androidKey (hkeys c (by simp))).2,
          ih fun d hd => hkeys d (by simp [hd])]
        rfl
  have hcall : adbTypes ("shell" :: (["input", "keyevent"] ++ keys.map androidKey)) =
      some keys := by
    rw [adbTypes_words (by rw [List.map_append, List.map_map]; rfl)
      (.cons reads_input (.cons reads_keyevent hreads))]
    exact htypes
  have hall : keys.all isKey = true := List.all_eq_true.mpr hkeys
  have hempty : keys.isEmpty = false := by simpa using hne
  rw [textArgs, hempty, hall]
  show ["shell" :: (["input", "keyevent"] ++ keys.map androidKey)].mapM adbTypes = _
  rw [List.mapM_cons, hcall]
  rfl

theorem typed_part {part : List Char} (hpart : ∀ c ∈ part, isKey c = false) :
    ((textArgs part).mapM adbTypes).map List.flatten = some (inputText part) := by
  cases part with
  | nil => rfl
  | cons c part =>
      have hall : (c :: part).all isKey = false := by simp [hpart c (by simp)]
      let quoted := Shell.quote (blanksEncoded (c :: part))
      have htexts : ["input", "text", String.ofList quoted].map String.toList =
          ["input".toList, "text".toList, quoted] := by
        simp only [List.map_cons, List.map_nil, String.toList_ofList]
      have hcall : adbTypes ("shell" :: ["input", "text", String.ofList quoted]) =
          some (inputText (c :: part)) := by
        rw [adbTypes_words htexts
          (.cons reads_input (.cons reads_text (.cons (Shell.reads_quote _) .nil)))]
        show some (inputText (blanksEncoded (c :: part))) = _
        rw [inputText_blanksEncoded]
      rw [textArgs, hall, List.isEmpty_cons]
      show (["shell" :: ["input", "text", String.ofList quoted]].mapM adbTypes).map _ = _
      rw [List.mapM_cons, hcall]
      show some ([inputText (c :: part)].flatten) = _
      rw [List.flatten_singleton]

theorem typed_append (calls more : List (List String)) :
    typed (calls ++ more) = (typed calls).bind fun front => (typed more).map (front ++ ·) := by
  unfold typed
  rw [List.mapM_append]
  cases calls.mapM adbTypes with
  | none => rfl
  | some front => cases more.mapM adbTypes with
    | none => rfl
    | some back => simp

theorem typed_parts (h : Parted text parts) :
    typed (parts.flatMap textArgs) = some (inputText text) := by
  induction h with
  | last hpart => rw [List.flatMap_singleton]; exact typed_part hpart
  | @next part keys text parts hpart hne hkeys hrest ih =>
      have hsplit : inputText (part ++ (keys ++ text)) =
          inputText part ++ (keys ++ inputText text) := by
        rw [inputText_append, inputText_keys hkeys]
        obtain ⟨c, keys, rfl⟩ := List.exists_cons_of_ne_nil hne
        rintro ⟨⟩
        exact ne_s_of_isKey (hkeys 's' (by simp)) rfl
      have hpartTyped : typed (textArgs part) = some (inputText part) := typed_part hpart
      have hkeysTyped : typed (textArgs keys) = some keys := by
        rw [typed, typed_keys hne hkeys, Option.map_some, List.flatten_singleton]
      rw [List.flatMap_cons, List.flatMap_cons, typed_append, hpartTyped, typed_append, hkeysTyped,
        ih, hsplit]
      rfl

/-- What the device types of any text: each `%s` that stands in it is typed as a space. -/
theorem typed_text (text : String) :
    typed (adbInputArgs (.text text)) = some (inputText text.toList) :=
  typed_parts (parted_splitKeys text.toList)

theorem inputText_length_le (text : List Char) : (inputText text).length ≤ text.length := by
  fun_induction inputText text with
  | case1 rest ih => simp only [List.length_cons]; omega
  | case2 c rest hnone ih => simp only [List.length_cons]; omega
  | case3 => exact Nat.le_refl _

/-- A text with a `%s` in it comes out shorter. -/
theorem inputText_eq_iff (text : List Char) : inputText text = text ↔ ¬ ['%', 's'] <:+: text := by
  fun_induction inputText text with
  | case1 rest ih =>
      constructor
      · intro h
        have := congrArg List.length h
        have := inputText_length_le rest
        simp only [List.length_cons] at *
        omega
      · exact fun h => absurd ⟨[], rest, rfl⟩ h
  | case2 c rest hnone ih =>
      rw [List.cons.injEq, List.infix_cons_iff, not_or, ih]
      constructor
      · rintro ⟨-, hrest⟩
        refine ⟨?_, hrest⟩
        rintro ⟨more, hmore⟩
        obtain ⟨rfl, rfl⟩ := List.cons.inj hmore
        exact hnone more rfl rfl
      · exact fun h => ⟨rfl, h.2⟩
  | case3 => simp

/-- An accepted text reaches the device unchanged if and only if `%s` does not stand in it. -/
theorem typed_unchanged_iff {session : String} {text : Option String} {command : InputCommand}
    (h : parseInput session text = .ok (session, command)) :
    ∃ accepted : String, text = some accepted ∧ command = .text accepted ∧
      (typed (adbInputArgs command) = some accepted.toList ↔
        ¬ ['%', 's'] <:+: accepted.toList) := by
  cases text with
  | none => cases h
  | some accepted =>
      simp only [parseInput] at h
      split at h
      · cases h
      cases h
      refine ⟨accepted, rfl, rfl, ?_⟩
      rw [typed_text, Option.some_inj]
      exact inputText_eq_iff accepted.toList

theorem typed_unchanged_iff_quotes :
    ∃ accepted : String, some "it's 5% \\o\n" = some accepted ∧
      InputCommand.text "it's 5% \\o\n" = .text accepted ∧
      (typed (adbInputArgs (.text "it's 5% \\o\n")) = some accepted.toList ↔
        ¬ ['%', 's'] <:+: accepted.toList) :=
  typed_unchanged_iff (by rfl : parseInput "session" (some "it's 5% \\o\n") = _)

/-- `100%s` is accepted, and is typed as `100` and a space. -/
theorem typed_percent_s :
    parseInput "session" (some "100%s") = .ok ("session", .text "100%s") ∧
      typed (adbInputArgs (.text "100%s")) = some "100 ".toList ∧
      typed (adbInputArgs (.text "100%s")) ≠ some "100%s".toList := by
  decide +kernel

end Stim.Server.AdbInput
