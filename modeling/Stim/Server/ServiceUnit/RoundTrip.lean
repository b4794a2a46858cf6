import Stim.Server.ServiceUnit.Form

/-!
# A rendered unit reads back as its spec

What `parseUnit` reads of a rendered unit is the spec it was rendered from, and an edit changes
what it names and keeps every other line.
-/

namespace Stim.ServiceUnit

open Json SystemdUnit Whitespace

variable {spec : ServiceSpec} {previous : Option JsString}

/-! ## The form of a rendered unit -/

/-- The log path as the unit has it. -/
def unitLog (logPath : JsString) : JsString :=
  logPath.flatMap fun u => if u = percent then [percent, percent] else [u]

def formOf (spec : ServiceSpec) (previous : Option JsString) : Form where
  description := lit "stim-server (" ++ spec.label ++ lit ")"
  arguments := spec.node :: spec.script :: serverArguments spec
  environment := (unitEnvironment spec).entries
  log := unitLog spec.logPath
  fields := (lit "Managed", lit "true") :: ((spec.serve.map serveFields).getD [] ++
    previousFields previous)

theorem renderUnit_eq (spec : ServiceSpec) (previous : Option JsString) :
    renderUnit spec previous = (formOf spec previous).text := by
  unfold renderUnit Form.text Form.lines
  congr 1
  simp only [Form.commandLines, Form.serviceFields, formOf, List.map_cons, List.map_append,
    List.map_nil, List.cons_append, List.nil_append, List.append_assoc]
  rfl

variable {label : JsString}

theorem lineFeed_notMem_label (h : validateLabel label = none) : lineFeed ∉ label := by
  unfold validateLabel at h
  split at h
  · next hlabel =>
    cases label with
    | nil => exact List.not_mem_nil
    | cons u rest =>
        rw [isLabel, Bool.and_eq_true, List.all_eq_true] at hlabel
        intro hmem
        rcases List.mem_cons.mp hmem with heq | hrest
        · rw [← heq] at hlabel
          cases hlabel.1
        · cases hlabel.2 _ hrest
  · cases h

theorem label_ne_nil (h : validateLabel label = none) : label ≠ [] := by
  intro hnil
  rw [hnil] at h
  cases h

/-- A log path that is one line and ends with no white space. -/
def LogPath (logPath : JsString) : Prop := lineFeed ∉ logPath ∧ Trimmed logPath

theorem getLast?_unitLog (logPath : JsString) : (unitLog logPath).getLast? = logPath.getLast? := by
  rcases List.eq_nil_or_concat logPath with rfl | ⟨front, u, rfl⟩
  · rfl
  · rw [List.concat_eq_append]
    rw [unitLog, List.flatMap_append, List.getLast?_append, List.getLast?_append,
        List.flatMap_singleton]
    split
    · next hu => rw [hu]; rfl
    · rfl

theorem lineFeed_notMem_unitLog {logPath : JsString} (h : lineFeed ∉ logPath) :
    lineFeed ∉ unitLog logPath := by
  intro hmem
  obtain ⟨u, hu, hmem⟩ := List.mem_flatMap.mp hmem
  split at hmem
  · rw [List.mem_cons, List.mem_singleton, or_self] at hmem
    cases hmem
  · rw [List.mem_singleton] at hmem
    exact h (hmem ▸ hu)

/-! ## Its variables -/

theorem isEnvKey_plain {key : JsString} (h : isEnvKey key = true) :
    key ≠ [] ∧ equalsSign ∉ key := by
  cases key with
  | nil => cases h
  | cons u rest =>
      rw [isEnvKey, Bool.and_eq_true, List.all_eq_true] at h
      refine ⟨List.cons_ne_nil _ _, fun hmem => ?_⟩
      rcases List.mem_cons.mp hmem with heq | hrest
      · rw [← heq] at h
        cases h.1
      · cases h.2 _ hrest

theorem isEnvKey_of_parse {entry key value : JsString}
    (h : parseEnvAssignment entry = some (key, value)) : isEnvKey key = true := by
  unfold parseEnvAssignment at h
  split at h
  · cases h
  · split_ifs at h with hkey
    cases h
    exact hkey

/-- The names of the values are those of variables, and none that the job supplies. -/
theorem environmentValues_keys (env : List JsString) :
    ∀ key ∈ (environmentValues env).keys, isEnvKey key = true ∧ key ∉ JOB_KEYS := by
  refine List.foldlRecOn (motive := fun values : OrderedMap JsString JsString =>
    ∀ key ∈ values.keys, isEnvKey key = true ∧ key ∉ JOB_KEYS) env _ ?_ ?_
  · intro key hkey
    cases hkey
  · intro values h entry _
    split
    · exact h
    · next key value hparse =>
      split_ifs with hjob
      · exact h
      · intro other hother
        obtain ⟨found, hfound⟩ := Option.isSome_iff_exists.mp
          (OrderedMap.get_isSome_iff.mpr hother)
        rw [OrderedMap.get_set] at hfound
        split_ifs at hfound with heq
        · rw [heq]
          exact ⟨isEnvKey_of_parse hparse, hjob⟩
        · exact h other (OrderedMap.get_isSome_iff.mp (by rw [hfound]; rfl))

/-- What the variables of a rendered unit are. -/
theorem get_unitEnvironment (spec : ServiceSpec) (name : JsString) :
    (unitEnvironment spec).get name =
      if name = LABEL_VARIABLE then some spec.label
      else ((environmentValues spec.env).get name).or (spec.environment.get name) := by
  rw [unitEnvironment, OrderedMap.get_set]
  split
  · rfl
  · exact OrderedMap.get_foldl_set spec.environment (environmentValues spec.env).nodup name

theorem storedVariable_entries (m : OrderedMap JsString JsString) {name : JsString}
    (h : name ≠ lit "__proto__") : storedVariable m.entries name = m.get name := by
  have hsame : (fun e : JsString × JsString => e.1 == name) = fun e => decide (e.1 = name) := by
    funext e
    exact beq_eq_decide _ _
  rw [storedVariable, if_neg h, hsame, OrderedMap.find?_reverse_entries]

theorem unitEnvironment_names (spec : ServiceSpec) :
    ∀ entry ∈ (unitEnvironment spec).entries, equalsSign ∉ entry.1 := by
  intro entry hmem
  have hget : (unitEnvironment spec).get entry.1 = some entry.2 :=
    OrderedMap.get_eq_some_iff.mpr hmem
  rw [get_unitEnvironment] at hget
  split_ifs at hget with hlabel
  · rw [hlabel]
    decide
  · rcases Option.or_eq_some_iff.mp hget with hvalue | ⟨-, hown⟩
    · exact (isEnvKey_plain (environmentValues_keys spec.env entry.1
        (OrderedMap.get_isSome_iff.mp (by rw [hvalue]; rfl))).1).2
    · exact spec.environment_names entry.1 (OrderedMap.get_isSome_iff.mp (by rw [hown]; rfl))

/-! ## Its fields -/

theorem mem_previousFields {field : JsString × JsString} (h : field ∈ previousFields previous) :
    ∃ script, field = (lit "PreviousScript", quoteUnitWord script false) := by
  unfold previousFields at h
  split at h
  · cases h
  · split at h
    · cases h
    · exact ⟨_, List.mem_singleton.mp h⟩

/-- The fields of a rendered unit are those of a serve record and of a previous script. -/
theorem mem_fields {field : JsString × JsString} (h : field ∈ (formOf spec previous).fields) :
    field = (lit "Managed", lit "true") ∨ ∃ change : Change, field ∈ change.replaced := by
  rcases List.mem_cons.mp h with rfl | h
  · exact Or.inl rfl
  · rcases List.mem_append.mp h with hserve | hprevious
    · cases hspec : spec.serve with
      | none =>
          rw [hspec] at hserve
          cases hserve
      | some record =>
          rw [hspec] at hserve
          exact Or.inr ⟨.serve record, hserve⟩
    · obtain ⟨script, rfl⟩ := mem_previousFields hprevious
      exact Or.inr ⟨.arguments [] script, List.mem_singleton_self _⟩

theorem readable_formOf (hlabel : validateLabel spec.label = none) (hlog : LogPath spec.logPath)
    (previous : Option JsString) :
    (formOf spec previous).Readable where
  description_trimmed := by
    have hfront : Trimmed (lit "stim-server (") := trimmed_of_isTrimmed (by decide)
    show Trimmed (lit "stim-server (" ++ spec.label ++ lit ")")
    rw [List.append_assoc]
    apply trimmed_append hfront (by decide)
    intro u hu
    rw [List.getLast?_append_of_ne_nil _ (by decide)] at hu
    cases hu
    decide
  description_line := by
    show lineFeed ∉ lit "stim-server (" ++ spec.label ++ lit ")"
    rw [List.mem_append, List.mem_append, not_or, not_or]
    exact ⟨⟨by decide, lineFeed_notMem_label hlabel⟩, by decide⟩
  names := unitEnvironment_names spec
  log_end := by
    intro u hu
    have hlast : spec.logPath.getLast? = some u := by
      rw [← getLast?_unitLog]
      exact hu
    exact hlog.2.2 u hlast
  log_line := lineFeed_notMem_unitLog hlog.1
  fields_plain := by
    intro field hmem
    rcases mem_fields hmem with rfl | ⟨change, hchange⟩
    · exact plain_of_isPlainKey (by decide) (trimmed_of_isTrimmed (by decide))
    · exact change.replaced_plain field hchange
  fields_line := by
    intro field hmem
    rcases mem_fields hmem with rfl | ⟨change, hchange⟩
    · decide
    · exact change.replaced_line field hchange

/-- What a rendered unit records. -/
def jobOf (spec : ServiceSpec) (previous : Option JsString) : JobFields where
  label := spec.label
  programArguments := spec.node :: spec.script :: serverArguments spec
  environment := storedVariable ((unitEnvironment spec).entries.filter fun entry =>
    !entry.1.isEmpty)
  logPath := some spec.logPath
  managed := true
  servePort := spec.serve.map fun serve => .finite serve.port.number
  serveCreated := spec.serve.any ServeRecord.created
  previousScript := previous.filter (· ≠ [])

theorem fieldOf_previous (previous : Option JsString) (key : JsString) :
    fieldOf (previousFields previous) key =
      if lit "PreviousScript" = key then
        (previous.filter (· ≠ [])).map (quoteUnitWord · false) else none := by
  unfold previousFields
  split
  · simp [fieldOf]
  · next script =>
    by_cases h : script = []
    · simp [h, fieldOf]
    · rw [if_neg h, fieldOf_cons]
      by_cases hkey : lit "PreviousScript" = key
      · simp [fieldOf, hkey, h, Option.filter]
      · simp [fieldOf, hkey]

theorem fieldOf_serve (serve : Option ServeRecord) (key : JsString) :
    fieldOf ((serve.map serveFields).getD []) key =
      if lit "ServeCreated" = key then serve.map fun record => boolString record.created
      else if lit "ServePort" = key then
        serve.map fun record => JsNumber.decimalString record.port.number
      else none := by
  cases serve with
  | none => simp [fieldOf]
  | some record =>
      rw [Option.map_some, Option.getD_some, serveFields, fieldOf_cons, fieldOf_cons]
      by_cases hcreated : lit "ServeCreated" = key
      · simp [fieldOf, hcreated]
      · by_cases hport : lit "ServePort" = key
        · simp [fieldOf, hcreated, hport]
        · simp [fieldOf, hcreated, hport]

/-- The fields of a rendered unit, by their keys. -/
theorem fieldOf_fields (spec : ServiceSpec) (previous : Option JsString) (key : JsString) :
    fieldOf (formOf spec previous).fields key =
      ((fieldOf (previousFields previous) key).or
        (fieldOf ((spec.serve.map serveFields).getD []) key)).or
        (if lit "Managed" = key then some (lit "true") else none) := by
  rw [formOf, fieldOf_cons, fieldOf_append]

theorem readPort (port : Port) :
    (if JsNumber.decimalString port.number ≠ [] ∧
        (JsNumber.decimalString port.number).all isDigit then
      some (JsNumber.toNumber (JsNumber.decimalString port.number)) else none) =
      some (.finite port.number) := by
  have hvalid := port.valid
  rw [if_pos ⟨JsNumber.decimalString_ne_nil _, List.all_eq_true.mpr fun u hu =>
    JsNumber.isDigit_of_mem_decimalString hu⟩, JsNumber.toNumber_decimalString (by omega)]

theorem boolString_eq_true (b : Bool) : decide (boolString b = lit "true") = b := by
  cases b <;> decide

/-- What the fields of `[X-Stim]` record. -/
structure Records (fields : List (JsString × JsString)) (serve : Option ServeRecord)
    (previous : Option JsString) : Prop where
  managed : fieldOf fields (lit "Managed") = some (lit "true")
  port : fieldOf fields (lit "ServePort") =
    serve.map fun record => JsNumber.decimalString record.port.number
  created : fieldOf fields (lit "ServeCreated") = serve.map fun record => boolString record.created
  script : fieldOf fields (lit "PreviousScript") = previous.map (quoteUnitWord · false)

theorem records_formOf (spec : ServiceSpec) (previous : Option JsString) :
    Records (formOf spec previous).fields spec.serve (previous.filter (· ≠ [])) where
  managed := by
    rw [fieldOf_fields, fieldOf_previous, fieldOf_serve, if_neg (by decide), if_neg (by decide),
      if_neg (by decide), if_pos rfl]
    rfl
  port := by
    rw [fieldOf_fields, fieldOf_previous, fieldOf_serve, if_neg (by decide), if_neg (by decide),
      if_pos rfl, if_neg (by decide), Option.none_or, Option.or_none]
  created := by
    rw [fieldOf_fields, fieldOf_previous, fieldOf_serve, if_neg (by decide), if_pos rfl,
      if_neg (by decide), Option.none_or, Option.or_none]
  script := by
    rw [fieldOf_fields, fieldOf_previous, fieldOf_serve, if_pos rfl, if_neg (by decide),
      if_neg (by decide), if_neg (by decide), Option.or_none, Option.or_none]

/-- A unit of the form records its arguments, its variables and its fields. -/
theorem unitJob_of_records {form : Form} (h : form.Readable) (hlabel : label ≠ [])
    (hvariable : storedVariable form.environment LABEL_VARIABLE = some label)
    {serve : Option ServeRecord} {previous : Option JsString}
    (hrecords : Records form.fields serve previous) :
    unitJob form.text = some
      { label
        programArguments := form.arguments
        environment := storedVariable (form.environment.filter fun entry => !entry.1.isEmpty)
        logPath := some (unescapePercent form.log)
        managed := true
        servePort := serve.map fun record => .finite record.port.number
        serveCreated := serve.any ServeRecord.created
        previousScript := previous } := by
  rw [Form.unitJob_text h hlabel hvariable, hrecords.managed, hrecords.port, hrecords.created,
    hrecords.script]
  congr 2
  · cases serve with
    | none => rfl
    | some record => exact readPort record.port
  · cases serve with
    | none => rfl
    | some record => simpa using boolString_eq_true record.created
  · cases previous with
    | none => rfl
    | some script =>
        rw [Option.map_some, Option.bind_some, Form.unitWords_singleton]
        rfl

theorem storedVariable_label (spec : ServiceSpec) :
    storedVariable (unitEnvironment spec).entries LABEL_VARIABLE = some spec.label := by
  rw [storedVariable_entries _ (by decide), get_unitEnvironment, if_pos rfl]

theorem unitJob_renderUnit (hlabel : validateLabel spec.label = none)
    (hlog : LogPath spec.logPath) (previous : Option JsString) :
    unitJob (renderUnit spec previous) = some (jobOf spec previous) := by
  rw [renderUnit_eq, unitJob_of_records (readable_formOf hlabel hlog previous)
    (label_ne_nil hlabel) (storedVariable_label spec) (records_formOf spec previous)]
  show some _ = some (jobOf spec previous)
  rw [jobOf]
  congr 2
  exact congrArg some (Form.unescapePercent_double spec.logPath)

/-! ## An edited unit -/

/-- What a change makes of what a unit records. -/
def Change.apply (change : Change) (job : JobFields) : JobFields :=
  match change with
  | .arguments programArguments previousScript =>
      { job with programArguments, previousScript := some previousScript }
  | .serve record =>
      { job with servePort := some (.finite record.port.number), serveCreated := record.created }

theorem fieldOf_filter (change : Change) (fields : List (JsString × JsString)) (key : JsString) :
    fieldOf (fields.filter fun field => !change.has field.1) key =
      if change.has key then none else fieldOf fields key := by
  rw [fieldOf, fieldOf, ← List.filter_reverse, List.find?_filter]
  cases hkey : change.has key with
  | true =>
      rw [if_pos rfl, Option.map_eq_none_iff, List.find?_eq_none]
      intro field _ hfield
      obtain ⟨hnot, heq⟩ := of_decide_eq_true hfield
      rw [beq_iff_eq.mp heq, hkey] at hnot
      cases hnot
  | false =>
      rw [if_neg Bool.false_ne_true]
      congr 2
      funext field
      by_cases h : field.1 = key
      · simp [h, hkey]
      · simp [h]

theorem records_edit {form : Form} {serve : Option ServeRecord} {previous : Option JsString}
    (h : Records form.fields serve previous) (change : Change) :
    Records (form.edit change).fields
      (match change with | .arguments _ _ => serve | .serve record => some record)
      (match change with | .arguments _ script => some script | .serve _ => previous) := by
  have hfield : ∀ key, fieldOf (form.edit change).fields key =
      (if change.has key then none else fieldOf form.fields key).or
        (fieldOf change.replaced key) := fun key => by
    rw [← fieldOf_filter, ← fieldOf_append]
    rfl
  cases change with
  | arguments programArguments script =>
      have hhas : ∀ key, (Change.arguments programArguments script).has key =
          ([lit "PreviousScript"].contains key || prototypeKeys.contains key) := fun _ => rfl
      have hreplaced : ∀ key, fieldOf (Change.arguments programArguments script).replaced key =
          if lit "PreviousScript" = key then some (quoteUnitWord script false) else none :=
        fun key => by rw [Change.replaced, fieldOf_cons]; rfl
      constructor
      · rw [hfield, hhas, hreplaced, if_neg (by decide), if_neg (by decide), Option.or_none]
        exact h.managed
      · rw [hfield, hhas, hreplaced, if_neg (by decide), if_neg (by decide), Option.or_none]
        exact h.port
      · rw [hfield, hhas, hreplaced, if_neg (by decide), if_neg (by decide), Option.or_none]
        exact h.created
      · rw [hfield, hhas, hreplaced, if_pos (by decide), if_pos rfl]
        rfl
  | serve record =>
      have hhas : ∀ key, (Change.serve record).has key =
          ([lit "ServePort", lit "ServeCreated"].contains key || prototypeKeys.contains key) :=
        fun _ => rfl
      have hreplaced : ∀ key, fieldOf (Change.serve record).replaced key = _ := fun key =>
        fieldOf_serve (some record) key
      constructor
      · rw [hfield, hhas, hreplaced, if_neg (by decide), if_neg (by decide), if_neg (by decide),
          Option.or_none]
        exact h.managed
      · rw [hfield, hhas, hreplaced, if_pos (by decide), if_neg (by decide), if_pos rfl]
        rfl
      · rw [hfield, hhas, hreplaced, if_pos (by decide), if_pos rfl]
        rfl
      · rw [hfield, hhas, hreplaced, if_neg (by decide), if_neg (by decide), if_neg (by decide),
          Option.or_none]
        exact h.script

theorem unitJob_editUnit (hlabel : validateLabel spec.label = none)
    (hlog : LogPath spec.logPath) (previous : Option JsString) (change : Change) :
    unitJob (editUnit (renderUnit spec previous) change) =
      some (change.apply (jobOf spec previous)) := by
  have hreadable := readable_formOf hlabel hlog previous
  rw [renderUnit_eq, Form.editUnit_text change hreadable,
    unitJob_of_records (Form.readable_edit change hreadable) (label_ne_nil hlabel)
      (storedVariable_label spec) (records_edit (records_formOf spec previous) change)]
  have hlogPath : unescapePercent ((formOf spec previous).edit change).log = spec.logPath :=
    Form.unescapePercent_double spec.logPath
  rw [hlogPath]
  cases change with
  | arguments programArguments script => rfl
  | serve record => rfl

/-! ## The service of a rendered unit -/

/-- One pair of arguments. -/
theorem readFlags_pair (environment : JsString → Option JsString) (flag next : JsString)
    (rest : List JsString) (flags : Flags) :
    readFlags environment (flag :: next :: rest) flags =
      readFlags environment rest
        { port := if flag = lit "--port" then some (JsNumber.toNumber next) else flags.port
          env :=
            if flag = lit "--env" then
              if equalsSign ∈ next then flags.env ++ [next]
              else match environment next with
                | some stored => flags.env ++ [assignment next stored]
                | none => flags.env
            else flags.env
          pathPrepend :=
            if flag = lit "--path-prepend" then flags.pathPrepend ++ [next]
            else flags.pathPrepend } := rfl

/-- Every name that has a value is read with it. -/
theorem readFlags_env {environment : JsString → Option JsString}
    {entries : List (JsString × JsString)}
    (h : ∀ entry ∈ entries, equalsSign ∉ entry.1 ∧ environment entry.1 = some entry.2)
    (rest : List JsString) (flags : Flags) :
    readFlags environment
        ((entries.map Prod.fst).flatMap (fun name => [lit "--env", name]) ++ rest) flags =
      readFlags environment rest
        { flags with env := flags.env ++ entries.map fun (name, value) => assignment name value } := by
  induction entries generalizing flags with
  | nil => simp
  | cons entry entries ih =>
      obtain ⟨hequals, hvalue⟩ := h entry List.mem_cons_self
      have hport : lit "--env" ≠ lit "--port" := by decide
      have hpath : lit "--env" ≠ lit "--path-prepend" := by decide
      rw [List.map_cons, List.flatMap_cons, List.append_assoc, List.cons_append, List.cons_append,
        List.nil_append, readFlags_pair]
      simp only [if_neg hport, if_neg hpath, if_neg hequals, hvalue, if_true]
      rw [ih fun other hother => h other (List.mem_cons_of_mem _ hother)]
      simp only [List.map_cons, List.append_assoc, List.singleton_append]

theorem readFlags_paths (environment : JsString → Option JsString) (dirs : List JsString)
    (flags : Flags) :
    readFlags environment (dirs.flatMap fun dir => [lit "--path-prepend", dir]) flags =
      { flags with pathPrepend := flags.pathPrepend ++ dirs } := by
  induction dirs generalizing flags with
  | nil => simp [readFlags]
  | cons dir dirs ih =>
      have hport : lit "--path-prepend" ≠ lit "--port" := by decide
      have henv : lit "--path-prepend" ≠ lit "--env" := by decide
      rw [List.flatMap_cons, List.cons_append, List.cons_append, List.nil_append,
        readFlags_pair]
      simp only [if_neg hport, if_neg henv, if_true]
      rw [ih]
      simp only [List.append_assoc, List.singleton_append]

/-- The flags of the server's arguments. -/
theorem readFlags_serverArguments {environment : JsString → Option JsString}
    (h : ∀ entry ∈ (environmentValues spec.env).entries,
      equalsSign ∉ entry.1 ∧ environment entry.1 = some entry.2) :
    readFlags environment (flagArguments (serverArguments spec)) ⟨none, [], []⟩ =
      ⟨some (.finite spec.port.number), normalizeEnv spec.env, spec.pathPrepend⟩ := by
  have hvalid := spec.port.valid
  have hflags : flagArguments (serverArguments spec) =
      lit "--port" :: JsNumber.decimalString spec.port.number ::
        (((environmentValues spec.env).entries.map Prod.fst).flatMap
          (fun name => [lit "--env", name]) ++
          spec.pathPrepend.flatMap fun dir => [lit "--path-prepend", dir]) := by
    rw [flagArguments, serverArguments, List.append_assoc]
    exact if_pos rfl
  have henv : lit "--port" ≠ lit "--env" := by decide
  have hpath : lit "--port" ≠ lit "--path-prepend" := by decide
  rw [hflags, readFlags_pair]
  simp only [if_true, if_neg henv, if_neg hpath]
  rw [readFlags_env h, readFlags_paths, JsNumber.toNumber_decimalString (by omega)]
  rfl

/-- What a rendered unit is to be read as. -/
structure Recovers (spec : ServiceSpec) (previous : Option JsString) (service : InstalledService) :
    Prop where
  label : service.label = spec.label
  node : service.node = some spec.node
  script : service.script = some spec.script
  port : service.port = some (spec.port.number : Int)
  env : service.env = normalizeEnv spec.env
  pathPrepend : service.pathPrepend = spec.pathPrepend
  stimHome : service.stimHome = spec.environment.get STIM_HOME
  logPath : service.logPath = some spec.logPath
  serve : service.serve = spec.serve.map fun record => ((record.port.number : Int), record.created)
  previousScript : service.previousScript = previous

/-- A command that is neither a shim nor run by a host app. -/
def PlainCommand (spec : ServiceSpec) : Prop :=
  ¬ lit "/bin/stimd" <:+ spec.node ∧
    ¬ (spec.script = lit "run" ∧ lit "/Contents/MacOS/stim-host" <:+ spec.node)

/-- No entry sets the variable of the label, or the name that no object takes a string for. -/
def PlainEnv (env : List JsString) : Prop :=
  LABEL_VARIABLE ∉ (environmentValues env).keys ∧ lit "__proto__" ∉ (environmentValues env).keys

theorem jobOf_environment (spec : ServiceSpec) (previous : Option JsString) {name : JsString}
    (hne : name ≠ []) (hproto : name ≠ lit "__proto__") :
    (jobOf spec previous).environment name = (unitEnvironment spec).get name := by
  rw [← storedVariable_entries _ hproto]
  exact Form.storedVariable_filter _ hne

theorem recovers_installedService (hcommand : PlainCommand spec) (henv : PlainEnv spec.env)
    (previous : Option JsString) :
    Recovers spec (previous.filter (· ≠ [])) (installedService (jobOf spec previous)) := by
  have hhost : hostOf (jobOf spec previous).programArguments = none := if_neg hcommand.2
  have hshim : isShim (jobOf spec previous).programArguments = false :=
    decide_eq_false hcommand.1
  have hkeys : ∀ entry ∈ (environmentValues spec.env).entries,
      entry.1 ∈ (environmentValues spec.env).keys := fun entry hmem => List.mem_map_of_mem hmem
  have hvalues : ∀ entry ∈ (environmentValues spec.env).entries,
      equalsSign ∉ entry.1 ∧ (jobOf spec previous).environment entry.1 = some entry.2 := by
    intro entry hmem
    obtain ⟨hne, hequals⟩ :=
      isEnvKey_plain (environmentValues_keys spec.env entry.1 (hkeys entry hmem)).1
    have hlabel : entry.1 ≠ LABEL_VARIABLE := fun h => henv.1 (h ▸ hkeys entry hmem)
    have hproto : entry.1 ≠ lit "__proto__" := fun h => henv.2 (h ▸ hkeys entry hmem)
    refine ⟨hequals, ?_⟩
    rw [jobOf_environment spec previous hne hproto, get_unitEnvironment, if_neg hlabel,
      OrderedMap.get_eq_some_iff.mpr hmem]
    rfl
  have hflags := readFlags_serverArguments hvalues
  have hhome : (jobOf spec previous).environment STIM_HOME = spec.environment.get STIM_HOME := by
    have hnone : (environmentValues spec.env).get STIM_HOME = none := by
      rw [OrderedMap.get_eq_none_iff]
      intro hmem
      exact (environmentValues_keys spec.env STIM_HOME hmem).2 List.mem_cons_self
    rw [jobOf_environment spec previous (by decide) (by decide), get_unitEnvironment,
      if_neg (by decide), hnone, Option.none_or]
  have hcommandOf : (jobOf spec previous).programArguments.drop 2 = serverArguments spec := rfl
  unfold installedService
  simp only [hhost, hshim, Option.isSome_none, Bool.false_eq_true, if_false, hcommandOf, hflags]
  constructor
  · rfl
  · rfl
  · rfl
  · exact JsNumber.integer_natCast spec.port.number
  · rfl
  · rfl
  · exact hhome
  · rfl
  · show ((spec.serve.map fun serve => JsNumber.finite serve.port.number).bind
      JsNumber.integer).map (fun port => (port, spec.serve.any ServeRecord.created)) = _
    cases spec.serve with
    | none => rfl
    | some record =>
        rw [Option.map_some, Option.bind_some, JsNumber.integer_natCast]
        rfl
  · rfl

/-! ## The lines that an edit keeps -/

/-- The lines that a change does not replace. -/
def keptLines (change : Change) (sectionName : JsString) : List JsString → List JsString
  | [] => []
  | line :: rest =>
      let sectionName := (headerOf (trimUnits line)).getD sectionName
      if change.replaces sectionName (keyOf (trimUnits line)) then
        keptLines change sectionName rest
      else line :: keptLines change sectionName rest

/-- The key of a header is no key of a unit. -/
theorem keyOf_header {trimmed name : JsString} (h : headerOf trimmed = some name) :
    isPlainKey (keyOf trimmed) = false := by
  cases trimmed with
  | nil => cases h
  | cons u rest =>
      unfold headerOf at h
      simp only at h
      split_ifs at h with hheader
      obtain ⟨rfl, -⟩ := hheader
      rw [keyOf]
      cases hn : (List.findIdx? (· == equalsSign) (leftBracket :: rest)).getD 0 with
      | zero => rfl
      | succ n =>
          obtain ⟨more, hmore⟩ := trimUnits_cons
            (show isSpaceUnit leftBracket = false by decide) (rest.take n)
          rw [List.take_succ_cons, hmore]
          rfl

theorem replaces_header (change : Change) {trimmed name : JsString}
    (h : headerOf trimmed = some name) (sectionName : JsString) :
    change.replaces sectionName (keyOf trimmed) = false := by
  have hkey := keyOf_header h
  have hcommand : keyOf trimmed ≠ lit "ExecStart" := by
    intro heq
    rw [heq] at hkey
    revert hkey
    decide
  have hhas : change.has (keyOf trimmed) = false := by
    cases hcase : change.has (keyOf trimmed) with
    | false => rfl
    | true => rw [change.isPlainKey_of_has hcase] at hkey; cases hkey
  simp [Change.replaces, hcommand, hhas]

/-- An edit keeps every line that it does not replace, and adds no other. -/
theorem keptLines_editLines (change : Change) (sectionName : JsString) (lines : List JsString) :
    keptLines change sectionName (editLines change sectionName lines) =
      keptLines change sectionName lines := by
  have hinserted : ∀ (fields : List (JsString × JsString)),
      (∀ field ∈ fields, Plain field.1 field.2 ∧ change.has field.1 = true) →
      ∀ rest, keptLines change (lit "X-Stim")
        (fields.map (fun (name, value) => assignment name value) ++ rest) =
          keptLines change (lit "X-Stim") rest := by
    intro fields
    induction fields with
    | nil => exact fun _ _ => rfl
    | cons field fields ih =>
        intro h rest
        obtain ⟨hplain, hhas⟩ := h field List.mem_cons_self
        have hreplaces : change.replaces (lit "X-Stim") field.1 = true := by
          rw [Change.replaces, hhas]
          simp
        rw [List.map_cons, List.cons_append, keptLines]
        simp only [headerOf_assignment hplain, keyOf_assignment hplain, Option.getD_none,
          hreplaces, if_true]
        exact ih (fun other hother => h other (List.mem_cons_of_mem _ hother)) rest
  induction lines generalizing sectionName with
  | nil => rfl
  | cons line lines ih =>
      rw [editLines, keptLines]
      dsimp only
      cases hheader : headerOf (trimUnits line) with
      | some name =>
          -- a header is kept, and what is inserted behind `[X-Stim]` is replaced
          have hreplaces := replaces_header change hheader
          have hcommand : ¬ (name = lit "Service" ∧ keyOf (trimUnits line) = lit "ExecStart") := by
            rintro ⟨-, hkey⟩
            have hplain := keyOf_header hheader
            rw [hkey] at hplain
            revert hplain
            decide
          have hhas : ¬ (name = lit "X-Stim" ∧ change.has (keyOf (trimUnits line)) = true) := by
            rintro ⟨-, hkey⟩
            have hplain := keyOf_header hheader
            rw [change.isPlainKey_of_has hkey] at hplain
            cases hplain
          simp only [Option.getD_some, Option.isSome_some, true_and, hreplaces, if_neg hcommand,
            if_neg hhas, Bool.false_eq_true, if_false]
          rw [keptLines]
          simp only [hheader, Option.getD_some, hreplaces, Bool.false_eq_true, if_false]
          congr 1
          split
          · next hname =>
            subst hname
            rw [hinserted change.replaced fun field hfield =>
              ⟨change.replaced_plain field hfield, change.has_replaced field hfield⟩]
            exact ih _
          · exact ih _
      | none =>
          simp only [Option.getD_none, Option.isSome_none, Bool.false_eq_true, false_and, if_false,
            List.nil_append]
          cases hcommand : (if sectionName = lit "Service" ∧
              keyOf (trimUnits line) = lit "ExecStart" then change.command else none) with
          | some command =>
              -- the command is replaced by a line of its own key
              split_ifs at hcommand with hexec
              obtain ⟨rfl, hkey⟩ := hexec
              have hreplaces : change.replaces (lit "Service") (lit "ExecStart") = true := by
                simp [Change.replaces, hcommand]
              obtain ⟨args, rfl⟩ : ∃ args, command = execLine args := by
                cases change with
                | arguments args script => exact ⟨args, (Option.some.inj hcommand).symm⟩
                | serve record => cases hcommand
              have hplain : Plain (lit "ExecStart")
                  ([space].intercalate (args.map (quoteUnitWord · true))) :=
                plain_of_isPlainKey (by decide) (trimmed_join _ _)
              simp only [hkey, hreplaces, if_true]
              rw [execLine, keptLines]
              simp only [headerOf_assignment hplain, keyOf_assignment hplain, Option.getD_none,
                hreplaces, if_true]
              exact ih _
          | none =>
              have hexec : ¬ (sectionName = lit "Service" ∧
                  keyOf (trimUnits line) = lit "ExecStart" ∧ change.command.isSome = true) := by
                rintro ⟨hsection, hkey, hsome⟩
                rw [if_pos ⟨hsection, hkey⟩] at hcommand
                rw [hcommand] at hsome
                cases hsome
              have hreplaces : change.replaces sectionName (keyOf (trimUnits line)) =
                  decide (sectionName = lit "X-Stim" ∧
                    change.has (keyOf (trimUnits line)) = true) := by
                rw [Change.replaces, decide_eq_false hexec, Bool.false_or]
              rw [hreplaces]
              simp only [decide_eq_true_eq]
              split
              · exact ih _
              · next hkept =>
                rw [keptLines]
                simp only [hheader, Option.getD_none, hreplaces, decide_eq_true_eq, if_neg hkept]
                rw [ih]

/-- The lines of an edited unit that the change does not replace are those of the unit. -/
theorem keptLines_editUnit (hlabel : validateLabel spec.label = none)
    (hlog : LogPath spec.logPath) (previous : Option JsString) (change : Change) :
    keptLines change [] ((editUnit (renderUnit spec previous) change).splitOn lineFeed) =
      keptLines change [] ((renderUnit spec previous).splitOn lineFeed) := by
  have hreadable := readable_formOf hlabel hlog previous
  rw [renderUnit_eq, Form.editUnit_text change hreadable,
    Form.splitOn_text (Form.readable_edit change hreadable), Form.splitOn_text hreadable,
    ← Form.editLines_lines change hreadable]
  exact keptLines_editLines change [] _

/-! ## The round trip -/

/-- Words are read back as they were written.  A rendered unit is read as its spec, where its
command is neither a shim nor run by a host app, no entry sets a name that the unit or an object
keeps for itself, and an empty previous script is none.  An edit keeps every line that it does not
replace, and changes what the unit records in the fields it names. -/
theorem unit_round_trip :
    (∀ (words : List JsString) (exec : Bool),
      unitWords ([space].intercalate (words.map (quoteUnitWord · exec))) exec = some words) ∧
    ∀ (spec : ServiceSpec) (previous : Option JsString),
      validateLabel spec.label = none →
      validateServeEnvironment spec.env spec.pathPrepend = none →
      LogPath spec.logPath →
      (PlainCommand spec → PlainEnv spec.env →
        ∃ service, parseUnit (renderUnit spec previous) = some service ∧
          Recovers spec (previous.filter (· ≠ [])) service) ∧
      ∀ change : Change,
        keptLines change [] ((editUnit (renderUnit spec previous) change).splitOn lineFeed) =
          keptLines change [] ((renderUnit spec previous).splitOn lineFeed) ∧
        ∃ job, unitJob (renderUnit spec previous) = some job ∧
          unitJob (editUnit (renderUnit spec previous) change) = some (change.apply job) := by
  refine ⟨unitWords_quoteUnitWord, fun spec previous hlabel _ hlog => ⟨?_, fun change => ⟨?_, ?_⟩⟩⟩
  · intro hcommand henv
    refine ⟨installedService (jobOf spec previous), ?_,
      recovers_installedService hcommand henv previous⟩
    rw [parseUnit, unitJob_renderUnit hlabel hlog previous]
    rfl
  · exact keptLines_editUnit hlabel hlog previous change
  · exact ⟨jobOf spec previous, unitJob_renderUnit hlabel hlog previous,
      unitJob_editUnit hlabel hlog previous change⟩

def exampleSpec (node script : JsString) (env : List JsString) : ServiceSpec where
  label := lit "a"
  node := node
  script := script
  port := ⟨1, by decide⟩
  env := env
  pathPrepend := []
  environment := .empty
  environment_names := by decide
  logPath := lit "/l"
  serve := none

theorem exampleSpec_accepted (node script : JsString) (env : List JsString) :
    validateLabel (exampleSpec node script env).label = none ∧
      LogPath (exampleSpec node script env).logPath :=
  ⟨by show validateLabel (lit "a") = none; decide, by show lineFeed ∉ lit "/l"; decide,
    trimmed_of_isTrimmed (by show isTrimmed (lit "/l") = true; decide)⟩

/-- A unit with one variable and a previous script. -/
theorem unit_round_trip_variable :
    ∃ service, parseUnit (renderUnit (exampleSpec (lit "/n") (lit "/s") [lit "A=1"])
        (some (lit "/o"))) = some service ∧
      service.env = [lit "A=1"] ∧ service.previousScript = some (lit "/o") := by
  obtain ⟨hlabel, hlog⟩ := exampleSpec_accepted (lit "/n") (lit "/s") [lit "A=1"]
  obtain ⟨hrecovers, -⟩ := unit_round_trip.2 (exampleSpec (lit "/n") (lit "/s") [lit "A=1"])
    (some (lit "/o")) hlabel (by decide) hlog
  obtain ⟨service, hservice, hrecovers⟩ := hrecovers ⟨by decide, by decide⟩ ⟨by decide, by decide⟩
  exact ⟨service, hservice, hrecovers.env.trans (by decide), hrecovers.previousScript⟩

/-- The validators accept a spec whose unit is read as another one. -/
def Misread (spec : ServiceSpec) (previous : Option JsString) : Prop :=
  validateLabel spec.label = none ∧ validateServeEnvironment spec.env spec.pathPrepend = none ∧
    LogPath spec.logPath ∧
    ¬ ∃ service, parseUnit (renderUnit spec previous) = some service ∧
      Recovers spec previous service

theorem misread_exampleSpec {node script : JsString} {env : List JsString}
    {previous : Option JsString}
    (hserve : validateServeEnvironment (exampleSpec node script env).env
      (exampleSpec node script env).pathPrepend = none)
    (hnot : ¬ Recovers (exampleSpec node script env) previous
      (installedService (jobOf (exampleSpec node script env) previous))) :
    Misread (exampleSpec node script env) previous := by
  obtain ⟨hlabel, hlog⟩ := exampleSpec_accepted node script env
  refine ⟨hlabel, hserve, hlog, ?_⟩
  rintro ⟨service, hservice, hrecovers⟩
  rw [parseUnit, unitJob_renderUnit hlabel hlog previous] at hservice
  exact hnot (Option.some.inj hservice ▸ hrecovers)

/-- A node that is named as the shim, a script that is run as by a host app, an entry that sets the
label, one that sets what no object takes, and an empty previous script: none is recovered. -/
theorem specs_not_recovered :
    Misread (exampleSpec (lit "/bin/stimd") (lit "/s") []) none ∧
      Misread (exampleSpec (lit "/Contents/MacOS/stim-host") (lit "run") []) none ∧
      Misread (exampleSpec (lit "/n") (lit "/s") [lit "STIM_SERVICE_LABEL=x"]) none ∧
      Misread (exampleSpec (lit "/n") (lit "/s") [lit "__proto__=x"]) none ∧
      Misread (exampleSpec (lit "/n") (lit "/s") []) (some []) := by
  refine ⟨?_, ?_, ?_, ?_, ?_⟩
  · refine misread_exampleSpec (by decide) fun h => ?_
    exact absurd h.node (by decide)
  · refine misread_exampleSpec (by decide) fun h => ?_
    exact absurd h.node (by decide)
  · refine misread_exampleSpec (by decide) fun h => ?_
    exact absurd h.env (by decide)
  · refine misread_exampleSpec (by decide) fun h => ?_
    exact absurd h.env (by decide)
  · refine misread_exampleSpec (by decide) fun h => ?_
    exact absurd h.previousScript (by decide)

end Stim.ServiceUnit
