import Stim.Lib.JsNumber
import Stim.Lib.Regex

/-!
# What the trace shows of a command

`redactArgv` and `redactCommandLine` of `packages/core/state/trace.ts`, over strings of UTF-16 code
units: the patterns they look for, the branch that each argument takes, and the text they write.
-/

namespace Stim.Trace

def lit (text : String) : JsString := JsString.ofString text

def MAX_ARGS : Nat := 60
def MAX_ARG_CHARS : Nat := 240
def MAX_LINE_CHARS : Nat := 500
def SCAN_ARG_CHARS : Nat := 1000
def SCAN_LINE_CHARS : Nat := 2000

/-! ## Patterns -/

def isDigit (u : UInt16) : Bool := 48 ≤ u.toNat && u.toNat ≤ 57

def isUpper (u : UInt16) : Bool := 65 ≤ u.toNat && u.toNat ≤ 90

def isLower (u : UInt16) : Bool := 97 ≤ u.toNat && u.toNat ≤ 122

/-- `[A-Za-z]` -/
def isLetter (u : UInt16) : Bool := isUpper u || isLower u

/-- `[A-Za-z0-9]` and the units of `more` -/
def alphanumericOr (more : String) (u : UInt16) : Bool :=
  isLetter u || isDigit u || (lit more).contains u

/-- `[^…]` -/
def noneOf (units : String) (u : UInt16) : Bool := !(lit units).contains u

/-- The unit, whatever its case.  No unit beyond ASCII folds to one of ASCII. -/
def caseless (c : UInt16) (u : UInt16) : Bool :=
  u == c || (isLower c && u.toNat + 32 == c.toNat) || (isUpper c && u.toNat == c.toNat + 32)

def exactly (text : String) : Regex UInt16 := Regex.word (lit text)

/-- A text under the `i` flag. -/
def anyCase (text : String) : Regex UInt16 := Regex.literal ((lit text).map caseless)

/-- `[-_]?` -/
def separator : Regex UInt16 := .opt (.one (lit "-_").contains)

def SECRET_WORDS : Regex UInt16 :=
  .oneOf [anyCase "token", anyCase "secret", anyCase "ticket", anyCase "pass", anyCase "pwd",
    anyCase "otp", anyCase "credential", anyCase "cookie",
    .allOf [anyCase "api", separator, anyCase "key"],
    .allOf [anyCase "access", separator, anyCase "key"],
    .allOf [anyCase "private", separator, anyCase "key"], anyCase "auth"]

def SECRET_NAME : Regex UInt16 := SECRET_WORDS

/-- `--?` -/
def dashes : Regex UInt16 := .seq (exactly "-") (.opt (exactly "-"))

def SECRET_FLAG : Regex UInt16 :=
  .allOf [dashes, .many (alphanumericOr "_.-") 0, SECRET_WORDS, .many (alphanumericOr "_.-") 0]

def redacted : JsString := lit "[redacted]"

/-- `'[^']*'|"[^"]*"` and one more alternative -/
def quotedOr (bare : Regex UInt16) : Regex UInt16 :=
  .oneOf [.allOf [exactly "'", .many (noneOf "'") 0, exactly "'"],
    .allOf [exactly "\"", .many (noneOf "\"") 0, exactly "\""], bare]

/-- `$1$2[redacted]` -/
def SECRET_FLAG_VALUE : Regex.Rule UInt16 where
  first := .seq SECRET_FLAG (.alt (exactly "=") (.many Whitespace.isSpaceUnit 1))
  middle := quotedOr (.many (fun u => !Whitespace.isSpaceUnit u) 1)
  last := .empty
  put := redacted

/-- `$1=[redacted]` -/
def SECRET_ASSIGNMENT : Regex.Rule UInt16 where
  first := .allOf [.many (alphanumericOr "_") 0, SECRET_WORDS, .many (alphanumericOr "_") 0,
    exactly "="]
  middle := quotedOr (.many (fun u => !Whitespace.isSpaceUnit u && noneOf "&" u) 1)
  last := .empty
  put := redacted

/-- `$1[redacted]@` -/
def URL_USERINFO : Regex.Rule UInt16 where
  first := exactly "//"
  middle := .many (fun u => !Whitespace.isSpaceUnit u && noneOf "/?#" u) 0
  last := exactly "@"
  put := redacted

def wordEdge : Regex UInt16 := .edge (alphanumericOr "_")

/-- `[A-Za-z-]` -/
def isHeaderUnit (u : UInt16) : Bool := isLetter u || u == 45

/-- `$1[redacted]` -/
def SECRET_HEADER : Regex.Rule UInt16 where
  first := .allOf [wordEdge, .many isHeaderUnit 0, SECRET_WORDS, .many isHeaderUnit 0, exactly ":",
    .many Whitespace.isSpaceUnit 0]
  middle := .many (noneOf "'\"\r\n") 1
  last := .empty
  put := redacted

/-- `$1 [redacted]` -/
def AUTH_SCHEME : Regex.Rule UInt16 where
  first := .seq wordEdge (.alt (anyCase "Bearer") (anyCase "Basic"))
  middle := .seq (.many Whitespace.isSpaceUnit 1) (.many (alphanumericOr "._~+/=-") 8)
  last := .empty
  put := lit " " ++ redacted

def TOKEN_SHAPE : Regex.Rule UInt16 where
  first := .empty
  middle := .seq wordEdge (.oneOf
    [.seq (.oneOf [.allOf [exactly "gh", .one (lit "pousr").contains, exactly "_"],
        exactly "github_pat_", exactly "sk-",
        .allOf [.one (lit "sr").contains, exactly "k_", .alt (exactly "live") (exactly "test"),
          exactly "_"],
        .allOf [exactly "xox", .one (lit "abprs").contains, exactly "-"],
        exactly "AKIA", exactly "AIza", exactly "glpat-"])
      (.many (alphanumericOr "_-") 10),
    .seq (exactly "npm_") (.times (.one (alphanumericOr "")) 36),
    .allOf [exactly "eyJ", .many (alphanumericOr "_-") 5, exactly ".",
      .many (alphanumericOr "_-") 5, exactly ".", .many (alphanumericOr "_-") 0]])
  last := .empty
  put := redacted

/-! ## Scrubbing -/

/-- `acc.split(value).join('***')` -/
def replaceExact (text value : JsString) : JsString :=
  (Regex.wordRule value (lit "***")).replaceAll text

/-- The patterns, in the order in which they are replaced. -/
def scrubRules : List (Regex.Rule UInt16) :=
  [URL_USERINFO, SECRET_ASSIGNMENT, SECRET_HEADER, AUTH_SCHEME, TOKEN_SHAPE]

def scrubText (text : JsString) (exact : List JsString) : JsString :=
  scrubRules.foldl (fun acc rule => rule.replaceAll acc)
    ((exact.filter (· ≠ [])).foldl replaceExact text)

def clip (text : JsString) (max : Nat) : JsString :=
  if max < text.length then text.take max ++ lit "..." else text

def redactCommandLine (command : JsString) (exact : List JsString) : JsString :=
  clip (scrubText (SECRET_FLAG_VALUE.replaceAll (command.take SCAN_LINE_CHARS)) exact)
    MAX_LINE_CHARS

def scrubArg (arg : JsString) (exact : List JsString) : JsString :=
  clip (scrubText (arg.take SCAN_ARG_CHARS) exact) MAX_ARG_CHARS

/-! ## The arguments -/

/-- `basename` of `node:path` -/
def basename (path : JsString) : JsString :=
  ((path.reverse.dropWhile (· == 47)).takeWhile (· != 47)).reverse

def CREDENTIAL_FLAGS : List (JsString × List (JsString × List JsString)) :=
  [(lit "curl", [([], [lit "-u", lit "-U", lit "--user", lit "--proxy-user"])]),
    (lit "security", [(lit "unlock-keychain", [lit "-p"]), (lit "create-keychain", [lit "-p"]),
      (lit "import", [lit "-P"]), (lit "export", [lit "-P"])])]

def credentialFlagsOf (program : JsString) (subcommand : Option JsString) : List JsString :=
  match CREDENTIAL_FLAGS.lookup (basename program) with
  | none => []
  | some flags =>
      let key := if (flags.lookup []).isSome then [] else subcommand.getD []
      (flags.lookup key).getD []

/-- The branch that an argument takes, when it is no value of the argument before it. -/
inductive Shape where
  /-- `-u` of a program that takes a credential there -/
  | credentialFlag
  /-- `-uname:password` -/
  | attached (flag : JsString)
  /-- `--name=value` -/
  | flag (name : JsString)
  /-- `--token`, the value of which follows -/
  | secretFlag
  /-- `TOKEN=value` -/
  | assignment (name : JsString)
  | commandLine
  | plain

/-- `/^(--?[A-Za-z0-9_.-]+)=/.exec(arg)?.[1]` -/
def flagOf (arg : JsString) : Option JsString :=
  Regex.group (.seq dashes (.many (alphanumericOr "_.-") 1)) (exactly "=") arg

/-- `/^([A-Za-z_][A-Za-z0-9_]*)=/.exec(arg)?.[1]` -/
def assignmentOf (arg : JsString) : Option JsString :=
  Regex.group (.seq (.one fun u => isLetter u || u == 95) (.many (alphanumericOr "_") 0))
    (exactly "=") arg

/-- `/^--?[A-Za-z0-9_.-]+$/.test(arg)` -/
def isFlag (arg : JsString) : Bool :=
  Regex.testWhole (.seq dashes (.many (alphanumericOr "_.-") 1)) arg

/-- The branches of an argument that is no credential flag of the program. -/
def namedShape (arg : JsString) : Shape :=
  match flagOf arg with
  | some name => .flag name
  | none =>
      if isFlag arg && SECRET_NAME.test arg then .secretFlag
      else
        match (assignmentOf arg).filter SECRET_NAME.test with
        | some name => .assignment name
        | none => if arg.any Whitespace.isSpaceUnit then .commandLine else .plain

def shapeOf (credentialFlags : List JsString) (arg : JsString) : Shape :=
  if credentialFlags.contains arg then .credentialFlag
  else if 2 < arg.length ∧ credentialFlags.contains (arg.take 2) then .attached (arg.take 2)
  else namedShape arg

/-- The argument makes the next one a value that is hidden. -/
def Shape.takesNext : Shape → Bool
  | .credentialFlag | .secretFlag => true
  | _ => false

/-- What is written for an argument. -/
def Shape.written (exact credentialFlags : List JsString) (arg : JsString) : Shape → JsString
  | .credentialFlag => arg
  | .attached start => start ++ redacted
  | .flag name =>
      if SECRET_NAME.test name || credentialFlags.contains name then name ++ lit "=" ++ redacted
      else scrubArg arg exact
  | .secretFlag => arg
  | .assignment name => name ++ lit "=" ++ redacted
  | .commandLine => redactCommandLine arg exact
  | .plain => scrubArg arg exact

/-- The loop over the arguments; `redactNext` is set behind a flag that takes a value. -/
def redactFrom (exact credentialFlags : List JsString) : Bool → List JsString → List JsString
  | _, [] => []
  | true, _ :: args => redacted :: redactFrom exact credentialFlags false args
  | false, arg :: args =>
      (shapeOf credentialFlags arg).written exact credentialFlags arg ::
        redactFrom exact credentialFlags (shapeOf credentialFlags arg).takesNext args

def redactArgv (args exact : List JsString) (program : JsString) : List JsString :=
  redactFrom exact (credentialFlagsOf program args.head?) false (args.take MAX_ARGS) ++
    if MAX_ARGS < args.length then
      [lit "[+" ++ JsNumber.decimalString (args.length - MAX_ARGS) ++ lit " more]"]
    else []

end Stim.Trace
