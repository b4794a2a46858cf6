import Stim.Core.SystemdUnit
import Stim.Lib.JsNumber
import Stim.Lib.OrderedMap

/-!
# The unit of an installed server

`renderUnit` and `editUnit` of `packages/server/src/service-unit.ts`, what they use of
`service-plist.ts`, and `parseUnit` with `installedService` of
`packages/core/state/server-service.ts`.

Ports are TCP port numbers, as `validatePort` has them.  The fields of a spec that only the plist
has (its host app, shim and working directory) are left out.
-/

namespace Stim.ServiceUnit

open Json SystemdUnit Whitespace

/-- The code units of a literal. -/
abbrev lit (text : String) : JsString := JsString.ofString text

def THROTTLE_SECONDS : Nat := 30

def STOP_TIMEOUT_SECONDS : Nat := 30

/-- The variable a unit sets so that the server knows its own label. -/
def LABEL_VARIABLE : JsString := lit "STIM_SERVICE_LABEL"

def STIM_HOME : JsString := lit "STIM_HOME"

def JOB_KEYS : List JsString := [STIM_HOME, lit "SHELL"]

local instance : LawfulBEq JsString := inferInstance

structure Port where
  number : Nat
  valid : 1 ≤ number ∧ number ≤ 65535
  deriving DecidableEq

structure ServeRecord where
  port : Port
  created : Bool
  deriving DecidableEq

structure ServiceSpec where
  label : JsString
  node : JsString
  script : JsString
  port : Port
  env : List JsString
  pathPrepend : List JsString
  /-- The variables of the job itself, `STIM_HOME` and `SHELL` of the installing process. -/
  environment : OrderedMap JsString JsString
  environment_names : ∀ name ∈ environment.keys, equalsSign ∉ name
  logPath : JsString
  serve : Option ServeRecord

/-! ## Validators -/

def isLetter (u : UInt16) : Bool :=
  (0x41 ≤ u.toNat && u.toNat ≤ 0x5A) || (0x61 ≤ u.toNat && u.toNat ≤ 0x7A)

def isDigit (u : UInt16) : Bool := JsNumber.isDigit u

/-- `/^[A-Za-z0-9][A-Za-z0-9._-]*$/` -/
def isLabel : JsString → Bool
  | [] => false
  | u :: rest =>
      (isLetter u || isDigit u) &&
        rest.all fun c => isLetter c || isDigit c || c == 0x2E || c == 0x5F || c == 0x2D

/-- `/^[A-Za-z_][A-Za-z0-9_]*$/` -/
def isEnvKey : JsString → Bool
  | [] => false
  | u :: rest => (isLetter u || u == 0x5F) && rest.all fun c => isLetter c || isDigit c || c == 0x5F

/-- The problem of a label, or null. -/
def validateLabel (label : JsString) : Option JsString :=
  if isLabel label then none
  else some (lit "--label must be letters, digits, \".\", \"_\" or \"-\", got \"" ++ label ++
    lit "\".")

/-- `KEY=VALUE` cut at its first equals sign, or nothing where the key is none. -/
def parseEnvAssignment (entry : JsString) : Option (JsString × JsString) :=
  match entry.findIdx? (· == equalsSign) with
  | none => none
  | some equals =>
      if isEnvKey (entry.take equals) then some (entry.take equals, entry.drop (equals + 1)) else none

def illegal (value : JsString) : Bool :=
  value.any fun u => u.toNat < 0x20 && u != 0x09 && u != 0x0A && u != 0x0D

def envProblem (entry : JsString) : Option JsString :=
  match parseEnvAssignment entry with
  | none => some (lit "--env takes KEY=VALUE with a name of letters, digits and \"_\", got \"" ++
      entry ++ lit "\".")
  | some (key, _) =>
      if key ∈ JOB_KEYS then
        some (lit "--env cannot set " ++ key ++ lit "; start stim serve with " ++ key ++
          lit " set instead.")
      else none

/-- One absolute directory: `isAbsolute`, and no `delimiter`. -/
def directoryProblem (dir : JsString) : Option JsString :=
  if dir.head? = some 0x2F ∧ 0x3A ∉ dir then none
  else some (lit "--path-prepend takes one absolute directory, got \"" ++ dir ++ lit "\".")

/-- The first problem in the `--env` and `--path-prepend` values of a command that does not serve,
or null. -/
def validateServeEnvironment (env pathPrepend : List JsString) : Option JsString :=
  if (env ++ pathPrepend).any illegal then
    some (lit "--env and --path-prepend values cannot contain control characters.")
  else (env.findSome? envProblem).or (pathPrepend.findSome? directoryProblem)

/-! ## Rendering -/

/-- The values of the entries, the last one of a key winning, without the keys the job supplies. -/
def environmentValues (env : List JsString) : OrderedMap JsString JsString :=
  env.foldl (fun values entry =>
    match parseEnvAssignment entry with
    | none => values
    | some (key, value) => if key ∈ JOB_KEYS then values else values.set key value) .empty

def normalizeEnv (env : List JsString) : List JsString :=
  (environmentValues env).entries.map fun (name, value) => assignment name value

def serverArguments (spec : ServiceSpec) : List JsString :=
  [lit "serve", lit "--service", lit "--port", JsNumber.decimalString spec.port.number] ++
    (environmentValues spec.env).keys.flatMap (fun name => [lit "--env", name]) ++
    spec.pathPrepend.flatMap fun dir => [lit "--path-prepend", dir]

def execLine (args : List JsString) : JsString :=
  assignment (lit "ExecStart") ([space].intercalate (args.map (quoteUnitWord · true)))

/-- The variables of the unit. -/
def unitEnvironment (spec : ServiceSpec) : OrderedMap JsString JsString :=
  ((environmentValues spec.env).entries.foldl (fun m (name, value) => m.set name value)
    spec.environment).set LABEL_VARIABLE spec.label

def environmentLine (name value : JsString) : JsString :=
  assignment (lit "Environment") (quoteUnitWord (assignment name value) false)

def boolString (b : Bool) : JsString := if b then lit "true" else lit "false"

/-- `ServePort` and `ServeCreated` of a serve record. -/
def serveFields (serve : ServeRecord) : List (JsString × JsString) :=
  [(lit "ServePort", JsNumber.decimalString serve.port.number),
    (lit "ServeCreated", boolString serve.created)]

/-- `PreviousScript` of a script that is not null or empty. -/
def previousFields (previousScript : Option JsString) : List (JsString × JsString) :=
  match previousScript with
  | none => []
  | some script => if script = [] then [] else [(lit "PreviousScript", quoteUnitWord script false)]

/-- The systemd user unit of a spec. -/
def renderUnit (spec : ServiceSpec) (previousScript : Option JsString) : JsString :=
  [lineFeed].intercalate <|
    [lit "[Unit]",
      assignment (lit "Description") (lit "stim-server (" ++ spec.label ++ lit ")"),
      [],
      lit "[Service]",
      execLine (spec.node :: spec.script :: serverArguments spec)] ++
    (unitEnvironment spec).entries.map (fun (name, value) => environmentLine name value) ++
    [assignment (lit "WorkingDirectory") (lit "%h"),
      assignment (lit "Restart") (lit "always"),
      assignment (lit "RestartSec") (JsNumber.decimalString THROTTLE_SECONDS),
      assignment (lit "TimeoutStopSec") (JsNumber.decimalString STOP_TIMEOUT_SECONDS),
      assignment (lit "StandardOutput") (lit "append:" ++
        spec.logPath.flatMap fun u => if u = percent then [percent, percent] else [u]),
      assignment (lit "StandardError") (lit "inherit"),
      [],
      lit "[X-Stim]",
      assignment (lit "Managed") (lit "true")] ++
    ((spec.serve.map serveFields).getD []).map (fun (key, value) => assignment key value) ++
    (previousFields previousScript).map (fun (key, value) => assignment key value) ++
    [[], lit "[Install]", assignment (lit "WantedBy") (lit "default.target"), []]

/-! ## Editing -/

inductive Change where
  | arguments (programArguments : List JsString) (previousScript : JsString)
  | serve (record : ServeRecord)

/-- The lines of `[X-Stim]` that a change replaces. -/
def Change.replaced : Change → List (JsString × JsString)
  | .arguments _ previousScript =>
      [(lit "PreviousScript", quoteUnitWord previousScript false)]
  | .serve record => serveFields record

/-- The names that `in` finds in every object. -/
def prototypeKeys : List JsString :=
  [lit "constructor", lit "__defineGetter__", lit "__defineSetter__", lit "hasOwnProperty",
    lit "__lookupGetter__", lit "__lookupSetter__", lit "isPrototypeOf",
    lit "propertyIsEnumerable", lit "toString", lit "valueOf", lit "__proto__",
    lit "toLocaleString"]

/-- `key in replaced` -/
def Change.has (change : Change) (key : JsString) : Bool :=
  (change.replaced.map Prod.fst).contains key || prototypeKeys.contains key

/-- The key of a line, empty where it has none. -/
def keyOf (trimmed : JsString) : JsString :=
  trimUnits (trimmed.take ((trimmed.findIdx? (· == equalsSign)).getD 0))

/-- The line that replaces the server's command, where the change has one. -/
def Change.command : Change → Option JsString
  | .arguments programArguments _ => some (execLine programArguments)
  | .serve _ => none

def editLines (change : Change) (sectionName : JsString) : List JsString → List JsString
  | [] => []
  | line :: rest =>
      let trimmed := trimUnits line
      let header := headerOf trimmed
      let sectionName := header.getD sectionName
      let key := keyOf trimmed
      match if sectionName = lit "Service" ∧ key = lit "ExecStart" then change.command else none with
      | some command => command :: editLines change sectionName rest
      | none =>
          if sectionName = lit "X-Stim" ∧ change.has key then editLines change sectionName rest
          else line ::
            ((if header.isSome ∧ sectionName = lit "X-Stim" then
              change.replaced.map fun (name, value) => assignment name value else []) ++
              editLines change sectionName rest)

/-- `text` with the server arguments and previous script, or the serve record, replaced. -/
def editUnit (text : JsString) (change : Change) : JsString :=
  [lineFeed].intercalate (editLines change [] (text.splitOn lineFeed))

/-! ## Parsing -/

/-- What a job file records. -/
structure JobFields where
  label : JsString
  programArguments : List JsString
  /-- The variables whose values are strings. -/
  environment : JsString → Option JsString
  logPath : Option JsString
  managed : Bool
  servePort : Option JsNumber
  serveCreated : Bool
  previousScript : Option JsString

structure InstalledService where
  label : JsString
  host : Option JsString
  node : Option JsString
  script : Option JsString
  port : Option Int
  env : List JsString
  pathPrepend : List JsString
  stimHome : Option JsString
  logPath : Option JsString
  managed : Bool
  serve : Option (Int × Bool)
  previousScript : Option JsString
  programArguments : List JsString

structure Flags where
  port : Option JsNumber
  env : List JsString
  pathPrepend : List JsString

/-- The flags of the server's arguments, which come in pairs. -/
def readFlags (environment : JsString → Option JsString) : List JsString → Flags → Flags
  | flag :: next :: rest, flags =>
      readFlags environment rest
        { port := if flag = lit "--port" then some (JsNumber.toNumber next) else flags.port
          env :=
            if flag = lit "--env" then
              if equalsSign ∈ next then flags.env ++ [next]
              else match environment next with
                | some stored => flags.env ++ [assignment next stored]
                | none => flags.env
            else flags.env
          pathPrepend :=
            if flag = lit "--path-prepend" then flags.pathPrepend ++ [next] else flags.pathPrepend }
  | _, flags => flags

/-- The arguments behind `serve --service` or `--service`. -/
def flagArguments (args : List JsString) : List JsString :=
  if args.take 2 = [lit "serve", lit "--service"] then args.drop 2
  else if args.take 1 = [lit "--service"] then args.drop 1
  else args

def hostOf (programArguments : List JsString) : Option JsString :=
  match programArguments with
  | first :: second :: _ =>
      if second = lit "run" ∧ lit "/Contents/MacOS/stim-host" <:+ first then some first else none
  | _ => none

def isShim (command : List JsString) : Bool :=
  match command with
  | first :: _ => decide (lit "/bin/stimd" <:+ first)
  | [] => false

def installedService (job : JobFields) : InstalledService :=
  let host := hostOf job.programArguments
  let command := if host.isSome then job.programArguments.drop 2 else job.programArguments
  let shim := isShim command
  let flags := readFlags job.environment (flagArguments (command.drop (if shim then 1 else 2)))
    ⟨none, [], []⟩
  { label := job.label
    host := host
    node := if shim then none else command[0]?
    script := command[if shim then 0 else 1]?
    port := flags.port.bind JsNumber.integer
    env := flags.env
    pathPrepend := flags.pathPrepend
    stimHome := job.environment STIM_HOME
    logPath := job.logPath
    managed := job.managed
    serve := (job.servePort.bind JsNumber.integer).map fun port => (port, job.serveCreated)
    previousScript := job.previousScript
    programArguments := job.programArguments }

/-- The last value of a key in a section. -/
def valueOf (lines : List UnitLine) (sectionName key : JsString) : Option JsString :=
  (lines.reverse.find? fun line => line.sectionName == sectionName && line.key == key).map
    UnitLine.value

/-- The variables that the lines of a unit set, in their order. -/
def unitVariables (lines : List UnitLine) : List (JsString × JsString) :=
  lines.flatMap fun line =>
    if line.sectionName = lit "Service" ∧ line.key = lit "Environment" then
      ((unitWords line.value false).getD []).filterMap fun entry =>
        match entry.findIdx? (· == equalsSign) with
        | some (equals + 1) => some (entry.take (equals + 1), entry.drop (equals + 2))
        | _ => none
    else []

/-- A variable of the object that they were assigned to: `__proto__` takes no string. -/
def storedVariable (assigned : List (JsString × JsString)) (name : JsString) : Option JsString :=
  if name = lit "__proto__" then none
  else (assigned.reverse.find? (·.1 == name)).map Prod.snd

/-- `output.slice('append:'.length).replace(/%%/g, '%')` -/
def unescapePercent : JsString → JsString
  | [] => []
  | [u] => [u]
  | u :: c :: rest =>
      if u = percent ∧ c = percent then percent :: unescapePercent rest
      else u :: unescapePercent (c :: rest)

/-- What a unit records, or null where it has no command and label in the form of
`renderUnit`. -/
def unitJob (text : JsString) : Option JobFields :=
  let lines := unitLines text
  let environment := storedVariable (unitVariables lines)
  match (valueOf lines (lit "Service") (lit "ExecStart")).bind (unitWords · true),
      environment LABEL_VARIABLE with
  | some programArguments, some label =>
      if label = [] then none
      else some
        { label
          programArguments
          environment
          logPath := (valueOf lines (lit "Service") (lit "StandardOutput")).bind fun output =>
            if lit "append:" <+: output then some (unescapePercent (output.drop 7)) else none
          managed := valueOf lines (lit "X-Stim") (lit "Managed") = some (lit "true")
          servePort := (valueOf lines (lit "X-Stim") (lit "ServePort")).bind fun servePort =>
            if servePort ≠ [] ∧ servePort.all isDigit then some (JsNumber.toNumber servePort)
            else none
          serveCreated := valueOf lines (lit "X-Stim") (lit "ServeCreated") = some (lit "true")
          previousScript := (valueOf lines (lit "X-Stim") (lit "PreviousScript")).bind fun previous =>
            (unitWords previous false).bind List.head? }
  | _, _ => none

def parseUnit (text : JsString) : Option InstalledService := (unitJob text).map installedService

end Stim.ServiceUnit
