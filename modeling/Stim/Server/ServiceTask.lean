import Stim.Lib.CommandLine
import Stim.Lib.XmlText
import Stim.Server.ServiceUnit

/-!
# The task of an installed server

`renderTaskXml` of `packages/server/src/service-task.ts` writes a Task Scheduler definition whose
arguments are quoted as the Windows C runtime splits them.  They reach the supervisor unchanged.
-/

namespace Stim.ServiceTask

open ServiceUnit XmlText

def backslash : UInt16 := 92

def quotationMark : UInt16 := 34

/-! ## Rendering -/

/-- `[&<>"']` -/
def isMarkup (unit : UInt16) : Bool :=
  unit == ampersand || unit == lessThan || unit == 62 || unit == quotationMark || unit == 39

def xml (text : JsString) : JsString := escaped isMarkup text

/-- `replace(/(\\*)"/g, '$1$1\\"')`, with so many backslashes in front -/
def escapeQuotes (slashes : Nat) : JsString → JsString
  | [] => List.replicate slashes backslash
  | unit :: rest =>
      if unit = backslash then escapeQuotes (slashes + 1) rest
      else if unit = quotationMark then
        List.replicate slashes backslash ++ (List.replicate slashes backslash ++
          backslash :: quotationMark :: escapeQuotes 0 rest)
      else List.replicate slashes backslash ++ unit :: escapeQuotes 0 rest

/-- The group of `/(\\+)$/`, empty where it does not match. -/
def trailingBackslashes (text : JsString) : JsString :=
  (text.reverse.takeWhile (· == backslash)).reverse

/-- `replace(/(\\+)$/, '$1$1')` -/
def doubleTrailing (text : JsString) : JsString := text ++ trailingBackslashes text

def windowsArgument (value : JsString) : JsString :=
  quotationMark :: (doubleTrailing (escapeQuotes 0 value) ++ [quotationMark])

structure TaskOptions where
  label : JsString
  user : JsString
  node : JsString
  runner : JsString
  file : JsString
  state : JsString
  workingDirectory : JsString

def TaskOptions.arguments (options : TaskOptions) : List JsString :=
  [options.runner, options.file, options.state, lit (toString THROTTLE_SECONDS)]

def argumentsTag : JsString := lit "<Arguments>"

def crlf : JsString := lit "\r\n"

/-- The lines in front of the arguments. -/
def TaskOptions.linesBefore (options : TaskOptions) : List JsString :=
  [lit "<?xml version=\"1.0\" encoding=\"UTF-16\"?>",
    lit "<Task version=\"1.2\" xmlns=\"http://schemas.microsoft.com/windows/2004/02/mit/task\">",
    lit "  <RegistrationInfo><Description>stim-server (" ++ (xml options.label ++
      lit ")</Description></RegistrationInfo>"),
    lit "  <Triggers><LogonTrigger><Enabled>true</Enabled><UserId>" ++ (xml options.user ++
      lit "</UserId></LogonTrigger></Triggers>"),
    lit "  <Principals><Principal id=\"Author\">",
    lit "    <UserId>" ++ (xml options.user ++
      lit "</UserId><LogonType>S4U</LogonType><RunLevel>LeastPrivilege</RunLevel>"),
    lit "  </Principal></Principals>",
    lit "  <Settings>",
    lit "    <MultipleInstancesPolicy>IgnoreNew</MultipleInstancesPolicy>",
    lit "    <DisallowStartIfOnBatteries>false</DisallowStartIfOnBatteries>",
    lit "    <StopIfGoingOnBatteries>false</StopIfGoingOnBatteries>",
    lit "    <ExecutionTimeLimit>PT0S</ExecutionTimeLimit>",
    lit "    <Priority>4</Priority>",
    lit "    <RestartOnFailure><Interval>PT1M</Interval><Count>999</Count></RestartOnFailure>",
    lit "    <Hidden>true</Hidden>",
    lit "  </Settings>",
    lit "  <Actions Context=\"Author\"><Exec>",
    lit "    <Command>" ++ (xml options.node ++ lit "</Command>")]

def TaskOptions.argumentsLine (options : TaskOptions) : JsString :=
  lit "    " ++ (argumentsTag ++
    (xml (List.intercalate (lit " ") (options.arguments.map windowsArgument)) ++
      lit "</Arguments>"))

def TaskOptions.linesAfter (options : TaskOptions) : List JsString :=
  [lit "    <WorkingDirectory>" ++ (xml options.workingDirectory ++ lit "</WorkingDirectory>"),
    lit "  </Exec></Actions>",
    lit "</Task>",
    []]

def renderTaskXml (options : TaskOptions) : JsString :=
  List.intercalate crlf
    (options.linesBefore ++ options.argumentsLine :: options.linesAfter)

/-! ## The runtime's rules -/

/-- The runtime's splitter; later ones know pairs of quotes. -/
def windowsRules (pairs : Bool) : CommandLine.Rules UInt16 where
  slash := backslash
  quote := quotationMark
  blank unit := unit == 32 || unit == 9
  pairs := pairs
  slash_ne_quote := by decide
  slash_not_blank := by decide
  quote_not_blank := by decide

/-- Backslashes at the end of a text that another unit stands in front of. -/
theorem trailingBackslashes_behind {unit : UInt16} (h : unit ≠ backslash) (front rest : JsString) :
    trailingBackslashes (front ++ unit :: rest) = trailingBackslashes rest := by
  have hUnit : (unit == backslash) = false := beq_eq_false_iff_ne.mpr h
  have hTake : (rest.reverse ++ unit :: front.reverse).takeWhile (· == backslash) =
      rest.reverse.takeWhile (· == backslash) := by
    rw [List.takeWhile_append]
    split_ifs with hAll
    · rw [List.takeWhile_cons_of_neg (by simp [hUnit]), List.append_nil,
        List.takeWhile_eq_self_iff.mpr]
      intro each hEach
      have hLength := List.takeWhile_sublist (p := (· == backslash)) (l := rest.reverse)
      have hEqual := hLength.eq_of_length hAll
      rw [← hEqual] at hEach
      have hTrue := List.mem_takeWhile_imp hEach
      exact hTrue
    · rfl
  rw [trailingBackslashes, trailingBackslashes, List.reverse_append, List.reverse_cons,
    List.append_assoc, List.singleton_append, hTake]

theorem doubleTrailing_behind {unit : UInt16} (h : unit ≠ backslash) (front rest : JsString) :
    doubleTrailing (front ++ unit :: rest) = front ++ unit :: doubleTrailing rest := by
  rw [doubleTrailing, trailingBackslashes_behind h, List.append_assoc]
  rfl

theorem doubleTrailing_replicate (slashes : Nat) :
    doubleTrailing (List.replicate slashes backslash) = List.replicate (2 * slashes) backslash := by
  have hAll : (List.replicate slashes backslash).takeWhile (· == backslash) =
      List.replicate slashes backslash := by
    apply List.takeWhile_eq_self_iff.mpr
    intro unit hUnit
    rw [List.eq_of_mem_replicate hUnit]
    exact beq_self_eq_true backslash
  rw [doubleTrailing, trailingBackslashes, List.reverse_replicate, hAll, List.reverse_replicate,
    List.replicate_append_replicate, Nat.two_mul]

/-- Both rewrites together double the backslashes in front of a quotation mark and of the end. -/
theorem doubleTrailing_escapeQuotes (pairs : Bool) (slashes : Nat) (value : JsString) :
    doubleTrailing (escapeQuotes slashes value) =
      CommandLine.doubled (windowsRules pairs) slashes value := by
  have hSlash : (windowsRules pairs).slash = backslash := rfl
  have hQuote : (windowsRules pairs).quote = quotationMark := rfl
  induction value generalizing slashes with
  | nil => exact doubleTrailing_replicate slashes
  | cons unit rest ih =>
      rw [escapeQuotes, CommandLine.doubled, hSlash, hQuote]
      split_ifs with hUnit hMark
      · exact ih (slashes + 1)
      · have hMarkSlash : quotationMark ≠ backslash := by decide
        have hFront : List.replicate slashes backslash ++ (List.replicate slashes backslash ++
            backslash :: quotationMark :: escapeQuotes 0 rest) =
            (List.replicate (2 * slashes) backslash ++ [backslash]) ++
              quotationMark :: escapeQuotes 0 rest := by
          rw [Nat.two_mul, ← List.replicate_append_replicate]
          simp only [List.append_assoc, List.singleton_append]
        rw [hFront, doubleTrailing_behind hMarkSlash, ih 0, List.append_assoc]
        rfl
      · rw [doubleTrailing_behind hUnit, ih 0]

theorem windowsArgument_eq (pairs : Bool) (value : JsString) :
    windowsArgument value = CommandLine.quoted (windowsRules pairs) value := by
  rw [windowsArgument, doubleTrailing_escapeQuotes pairs]
  rfl

/-! ## The document -/

theorem isMarkup_small (unit : UInt16) (h : isMarkup unit = true) : unit.toNat < 100 := by
  simp only [isMarkup, Bool.or_eq_true, beq_iff_eq] at h
  rcases h with (((rfl | rfl) | rfl) | rfl) | rfl <;> decide

theorem lessThan_not_mem_xml (text : JsString) : lessThan ∉ xml text :=
  lessThan_not_mem_escaped (by decide) isMarkup_small text

theorem decodeReferences_xml (text : JsString) : decodeReferences (xml text) = text :=
  decodeReferences_escaped (by decide) isMarkup_small text

theorem misses_xml (text : JsString) : misses argumentsTag (xml text) = true := by
  have hTag : argumentsTag = lessThan :: argumentsTag.tail := by decide +kernel
  rw [hTag]
  exact misses_of_not_mem (lessThan_not_mem_xml text)

/-- A literal, an escaped text and a literal again, none of which begins the arguments. -/
theorem misses_field {front back : JsString} (text : JsString)
    (hFront : misses argumentsTag front = true) (hBack : misses argumentsTag back = true) :
    misses argumentsTag (front ++ (xml text ++ back)) = true :=
  misses_append hFront (misses_append (misses_xml text) hBack)

/-- No line in front of the arguments begins them. -/
theorem misses_linesBefore (options : TaskOptions) :
    ∀ line ∈ options.linesBefore, misses argumentsTag line = true := by
  unfold TaskOptions.linesBefore
  simp only [List.forall_mem_cons]
  repeat' apply And.intro
  all_goals first
    | decide +kernel
    | exact misses_field _ (by decide +kernel) (by decide +kernel)

/-- Lines in front of a line, each with a separator. -/
theorem intercalate_line (separator line : JsString) (front back : List JsString) :
    ∃ rest, List.intercalate separator (front ++ line :: back) =
      front.flatMap (fun each => each ++ separator) ++ (line ++ rest) := by
  induction front with
  | nil =>
      cases back with
      | nil => exact ⟨[], by simp [List.intercalate]⟩
      | cons next back =>
          refine ⟨separator ++ List.intercalate separator (next :: back), ?_⟩
          simp [List.intercalate]
  | cons first front ih =>
      obtain ⟨rest, hRest⟩ := ih
      refine ⟨rest, ?_⟩
      have hCons : List.intercalate separator (first :: (front ++ line :: back)) =
          first ++ (separator ++ List.intercalate separator (front ++ line :: back)) := by
        cases front <;> simp [List.intercalate]
      rw [List.cons_append, hCons, hRest, List.flatMap_cons]
      simp only [List.append_assoc]

theorem misses_flatMap {tag separator : JsString} {lines : List JsString}
    (hSeparator : misses tag separator = true) (h : ∀ line ∈ lines, misses tag line = true) :
    misses tag (lines.flatMap fun line => line ++ separator) = true := by
  induction lines with
  | nil => rfl
  | cons line lines ih =>
      rw [List.forall_mem_cons] at h
      rw [List.flatMap_cons]
      exact misses_append (misses_append h.1 hSeparator) (ih h.2)

/-- The first element of its name in the definition holds the arguments. -/
theorem elementText_arguments (options : TaskOptions) :
    elementText argumentsTag (renderTaskXml options) =
      some (xml (List.intercalate (lit " ") (options.arguments.map windowsArgument))) := by
  obtain ⟨rest, hRest⟩ := intercalate_line crlf options.argumentsLine options.linesBefore
    options.linesAfter
  have hClose : lit "</Arguments>" = lessThan :: (lit "</Arguments>").tail := by decide +kernel
  have hFront : misses argumentsTag
      (options.linesBefore.flatMap (fun line => line ++ crlf) ++ lit "    ") = true :=
    misses_append (misses_flatMap (by decide +kernel) (misses_linesBefore options))
      (by decide +kernel)
  have hTag : argumentsTag ≠ [] := by decide +kernel
  rw [renderTaskXml, hRest, TaskOptions.argumentsLine, hClose]
  simp only [List.append_assoc, List.cons_append]
  rw [← List.append_assoc]
  exact elementText_misses hTag hFront (lessThan_not_mem_xml _)

/-- Whatever the strings, the arguments that the definition holds are split into the four that the
supervisor is started with. -/
theorem arguments_unchanged (options : TaskOptions) (pairs : Bool) :
    ∃ content, elementText argumentsTag (renderTaskXml options) = some content ∧
      CommandLine.splitArguments (windowsRules pairs) (decodeReferences content) =
        [options.runner, options.file, options.state, lit "30"] := by
  refine ⟨_, elementText_arguments options, ?_⟩
  have hSpace : lit " " = [32] := by decide +kernel
  have hBlank : (windowsRules pairs).blank 32 = true := by decide +revert
  have hWords : options.arguments.map windowsArgument =
      options.arguments.map (CommandLine.quoted (windowsRules pairs)) :=
    List.map_congr_left fun value _ => windowsArgument_eq pairs value
  rw [decodeReferences_xml, hWords, hSpace, CommandLine.splitArguments_quoted _ hBlank]
  rfl

end Stim.ServiceTask
