import Stim.Server.ServiceUnit

/-!
# The form of a unit

What `renderUnit` writes and `editUnit` keeps is one form: fixed lines around the server's
arguments, its variables, its log and the fields of `[X-Stim]`.  A unit of that form is parsed as
what it records, and an edit of it is a unit of that form again.
-/

namespace Stim.ServiceUnit

open Json SystemdUnit Whitespace

/-- A unit, by what differs between two of them. -/
structure Form where
  description : JsString
  arguments : List JsString
  environment : List (JsString × JsString)
  log : JsString
  fields : List (JsString × JsString)

namespace Form

/-- The command and the variables. -/
def commandLines (form : Form) : List JsString :=
  execLine form.arguments :: form.environment.map fun (name, value) => environmentLine name value

/-- The lines behind the variables, up to the log. -/
def serviceFields (form : Form) : List (JsString × JsString) :=
  [(lit "WorkingDirectory", lit "%h"), (lit "Restart", lit "always"),
    (lit "RestartSec", JsNumber.decimalString THROTTLE_SECONDS),
    (lit "TimeoutStopSec", JsNumber.decimalString STOP_TIMEOUT_SECONDS),
    (lit "StandardOutput", lit "append:" ++ form.log), (lit "StandardError", lit "inherit")]

def lines (form : Form) : List JsString :=
  [lit "[Unit]", assignment (lit "Description") form.description, [], lit "[Service]"] ++
    form.commandLines ++ form.serviceFields.map (fun (key, value) => assignment key value) ++
    [[], lit "[X-Stim]"] ++ form.fields.map (fun (key, value) => assignment key value) ++
    [[], lit "[Install]", assignment (lit "WantedBy") (lit "default.target"), []]

def text (form : Form) : JsString := [lineFeed].intercalate form.lines

/-- The lines of a form are the lines of its text, and they are read as they are meant. -/
structure Readable (form : Form) : Prop where
  description_trimmed : Trimmed form.description
  description_line : lineFeed ∉ form.description
  names : ∀ entry ∈ form.environment, equalsSign ∉ entry.1
  log_end : ∀ u, form.log.getLast? = some u → isSpaceUnit u = false
  log_line : lineFeed ∉ form.log
  fields_plain : ∀ field ∈ form.fields, Plain field.1 field.2
  fields_line : ∀ field ∈ form.fields, lineFeed ∉ field.1 ∧ lineFeed ∉ field.2

end Form

/-! ## Keys of lines -/

/-- A key that can be read back, decidably. -/
def isPlainKey (key : JsString) : Bool :=
  match key with
  | [] => false
  | u :: _ =>
      u != leftBracket && u != 0x23 && u != 0x3B && !key.contains equalsSign && !isSpaceUnit u &&
        (key.getLast?).all (!isSpaceUnit ·)

variable {key value : JsString}

theorem plain_of_isPlainKey (hkey : isPlainKey key = true) (hvalue : Trimmed value) :
    Plain key value := by
  unfold isPlainKey at hkey
  split at hkey
  · cases hkey
  · next u rest =>
    simp only [Bool.and_eq_true, bne_iff_ne, ne_eq, Bool.not_eq_true', List.contains_eq_mem,
      decide_eq_false_iff_not] at hkey
    obtain ⟨⟨⟨⟨⟨hbracket, hhash⟩, hsemicolon⟩, hequals⟩, hfirst⟩, hlast⟩ := hkey
    refine ⟨List.cons_ne_nil _ _, hequals, ?_, ⟨?_, ?_⟩, hvalue⟩
    · intro v hv
      cases hv
      exact ⟨hbracket, hhash, hsemicolon⟩
    · intro v hv
      cases hv
      exact hfirst
    · intro v hv
      rw [hv] at hlast
      simpa using hlast

theorem trimmed_quote (value : JsString) (exec : Bool) : Trimmed (quoteUnitWord value exec) := by
  constructor
  · intro u hu
    rw [quoteUnitWord, List.cons_append, List.head?_cons] at hu
    cases hu
    decide
  · intro u hu
    rw [quoteUnitWord, List.getLast?_append_of_ne_nil _ (List.cons_ne_nil _ _)] at hu
    cases hu
    decide

/-- What holds of every quoted word and of a blank holds of their join. -/
theorem forall_join {P : UInt16 → Prop} {exec : Bool} (hspace : P space)
    (hword : ∀ word : JsString, ∀ u ∈ quoteUnitWord word exec, P u) (words : List JsString) :
    ∀ u ∈ [space].intercalate (words.map (quoteUnitWord · exec)), P u := by
  induction words with
  | nil => intro u hu; cases hu
  | cons word words ih =>
      cases words with
      | nil =>
          rw [List.map_singleton, List.intercalate_singleton]
          exact hword word
      | cons next words =>
          rw [List.map_cons, List.map_cons, List.intercalate_cons_cons,
            ← List.map_cons (f := (quoteUnitWord · exec))]
          intro u hu
          rw [List.mem_append, List.mem_append, List.mem_singleton] at hu
          rcases hu with (hfirst | rfl) | hrest
          · exact hword word u hfirst
          · exact hspace
          · exact ih u hrest

/-- The join of quoted words begins and ends with a quotation mark. -/
theorem trimmed_join (words : List JsString) (exec : Bool) :
    Trimmed ([space].intercalate (words.map (quoteUnitWord · exec))) := by
  induction words with
  | nil => exact trimmed_nil
  | cons word words ih =>
      cases words with
      | nil =>
          rw [List.map_singleton, List.intercalate_singleton]
          exact trimmed_quote word exec
      | cons next words =>
          have hne : [space].intercalate ((next :: words).map (quoteUnitWord · exec)) ≠ [] := by
            cases words with
            | nil => simp [quoteUnitWord]
            | cons => simp [quoteUnitWord]
          rw [List.map_cons, List.map_cons, List.intercalate_cons_cons,
            ← List.map_cons (f := (quoteUnitWord · exec))]
          constructor
          · intro u hu
            rw [List.append_assoc, List.head?_append_of_ne_nil _ (by simp [quoteUnitWord])] at hu
            exact (trimmed_quote word exec).1 u hu
          · intro u hu
            rw [List.getLast?_append_of_ne_nil _ hne] at hu
            exact ih.2 u hu

namespace Form

variable {form : Form}

theorem serviceFields_plain (h : form.Readable) :
    ∀ field ∈ form.serviceFields, Plain field.1 field.2 := by
  intro field hmem
  simp only [serviceFields, List.mem_cons, List.not_mem_nil, or_false] at hmem
  have hprefix : Trimmed (lit "append:") := trimmed_of_isTrimmed (by decide)
  rcases hmem with rfl | rfl | rfl | rfl | rfl | rfl <;> dsimp only
  · exact plain_of_isPlainKey (by decide) (trimmed_of_isTrimmed (by decide))
  · exact plain_of_isPlainKey (by decide) (trimmed_of_isTrimmed (by decide))
  · exact plain_of_isPlainKey (by decide) (JsNumber.trimmed_decimalString _)
  · exact plain_of_isPlainKey (by decide) (JsNumber.trimmed_decimalString _)
  · exact plain_of_isPlainKey (by decide) (trimmed_append hprefix (by decide) h.log_end)
  · exact plain_of_isPlainKey (by decide) (trimmed_of_isTrimmed (by decide))

end Form

/-! ## Reading the lines of a unit -/

theorem linesFrom_header {line : JsString} (name : JsString)
    (hskipped : isSkipped (trimUnits line) = false)
    (hheader : headerOf (trimUnits line) = some name) (sectionName : JsString)
    (rest : List JsString) : linesFrom sectionName (line :: rest) = linesFrom name rest := by
  rw [linesFrom]
  simp only [hskipped, hheader, Bool.false_eq_true, if_false]

theorem linesFrom_blank (sectionName : JsString) (rest : List JsString) :
    linesFrom sectionName ([] :: rest) = linesFrom sectionName rest := by
  rw [linesFrom]
  rfl

variable {fields : List (JsString × JsString)}

theorem linesFrom_fields (h : ∀ field ∈ fields, Plain field.1 field.2) (sectionName : JsString)
    (rest : List JsString) :
    linesFrom sectionName (fields.map (fun (key, value) => assignment key value) ++ rest) =
      fields.map (fun (key, value) => ⟨sectionName, key, value⟩) ++ linesFrom sectionName rest := by
  induction fields with
  | nil => rfl
  | cons field fields ih =>
      rw [List.map_cons, List.map_cons, List.cons_append, List.cons_append,
        linesFrom_assignment (h field List.mem_cons_self),
        ih fun other hother => h other (List.mem_cons_of_mem _ hother)]

namespace Form

variable {form : Form}

/-- The lines of the command and of the variables, as they are read. -/
def serviceLines (form : Form) : List (JsString × JsString) :=
  (lit "ExecStart", [space].intercalate (form.arguments.map (quoteUnitWord · true))) ::
    form.environment.map (fun (name, value) =>
      (lit "Environment", quoteUnitWord (assignment name value) false)) ++ form.serviceFields

theorem serviceLines_plain (h : form.Readable) :
    ∀ field ∈ form.serviceLines, Plain field.1 field.2 := by
  intro field hmem
  rw [serviceLines, List.cons_append, List.mem_cons, List.mem_append, List.mem_map] at hmem
  rcases hmem with rfl | ⟨entry, -, rfl⟩ | hmem
  · exact plain_of_isPlainKey (by dsimp only; decide) (trimmed_join _ _)
  · exact plain_of_isPlainKey (by dsimp only; decide) (trimmed_quote _ _)
  · exact serviceFields_plain h field hmem

/-- The lines of a unit by the section that each is in. -/
theorem lines_eq (form : Form) : form.lines =
    lit "[Unit]" :: ([(lit "Description", form.description)].map fun (key, value) =>
      assignment key value) ++ [] :: lit "[Service]" ::
    (form.serviceLines.map (fun (key, value) => assignment key value) ++ [] :: lit "[X-Stim]" ::
      (form.fields.map (fun (key, value) => assignment key value) ++ [] :: lit "[Install]" ::
        ([(lit "WantedBy", lit "default.target")].map (fun (key, value) => assignment key value) ++
          [[]]))) := by
  rw [lines, commandLines, serviceLines]
  simp only [List.map_append, List.map_cons, List.map_map, List.append_assoc, List.cons_append,
    List.map_nil, List.nil_append]
  rfl

/-- What is read of the lines of a unit. -/
def unitLinesOf (form : Form) : List UnitLine :=
  ⟨lit "Unit", lit "Description", form.description⟩ ::
    (form.serviceLines.map (fun (key, value) => ⟨lit "Service", key, value⟩) ++
      (form.fields.map (fun (key, value) => ⟨lit "X-Stim", key, value⟩) ++
        [⟨lit "Install", lit "WantedBy", lit "default.target"⟩]))

theorem linesFrom_lines (h : form.Readable) : linesFrom [] form.lines = form.unitLinesOf := by
  have hdescription : ∀ field ∈ [(lit "Description", form.description)],
      Plain field.1 field.2 := by
    intro field hmem
    rw [List.mem_singleton.mp hmem]
    exact plain_of_isPlainKey (by dsimp only; decide) h.description_trimmed
  have hwanted : ∀ field ∈ [(lit "WantedBy", lit "default.target")], Plain field.1 field.2 := by
    intro field hmem
    rw [List.mem_singleton.mp hmem]
    exact plain_of_isPlainKey (by decide) (trimmed_of_isTrimmed (by decide))
  rw [lines_eq, List.cons_append, linesFrom_header (lit "Unit") (by decide) (by decide),
    linesFrom_fields hdescription, linesFrom_blank,
    linesFrom_header (lit "Service") (by decide) (by decide),
    linesFrom_fields (serviceLines_plain h), linesFrom_blank,
    linesFrom_header (lit "X-Stim") (by decide) (by decide),
    linesFrom_fields h.fields_plain, linesFrom_blank,
    linesFrom_header (lit "Install") (by decide) (by decide),
    linesFrom_fields hwanted, linesFrom_blank]
  rfl

theorem lineFeed_notMem_decimalString (n : Nat) : lineFeed ∉ JsNumber.decimalString n := by
  intro hmem
  have hdigit := JsNumber.isDigit_of_mem_decimalString hmem
  cases hdigit

theorem lineFeed_notMem_assignment {key value : JsString} (hkey : lineFeed ∉ key)
    (hvalue : lineFeed ∉ value) : lineFeed ∉ assignment key value := by
  rw [assignment, List.mem_append, List.mem_cons]
  rintro (hmem | heq | hmem)
  · exact hkey hmem
  · cases heq
  · exact hvalue hmem

theorem lineFeed_notMem_join (words : List JsString) (exec : Bool) :
    lineFeed ∉ [space].intercalate (words.map (quoteUnitWord · exec)) := fun hmem =>
  forall_join (P := (· ≠ lineFeed)) (by decide)
    (fun word u hu heq => lineFeed_notMem_quoteUnitWord word exec (heq ▸ hu)) words _ hmem rfl

theorem serviceLines_line (h : form.Readable) :
    ∀ field ∈ form.serviceLines, lineFeed ∉ assignment field.1 field.2 := by
  intro field hmem
  rw [serviceLines, List.cons_append, List.mem_cons, List.mem_append, List.mem_map] at hmem
  rcases hmem with rfl | ⟨entry, -, rfl⟩ | hmem
  · exact lineFeed_notMem_assignment (by dsimp only; decide) (lineFeed_notMem_join _ _)
  · exact lineFeed_notMem_assignment (by dsimp only; decide) (lineFeed_notMem_quoteUnitWord _ _)
  · simp only [serviceFields, List.mem_cons, List.not_mem_nil, or_false] at hmem
    rcases hmem with rfl | rfl | rfl | rfl | rfl | rfl <;> dsimp only
    · decide
    · decide
    · exact lineFeed_notMem_assignment (by decide) (lineFeed_notMem_decimalString _)
    · exact lineFeed_notMem_assignment (by decide) (lineFeed_notMem_decimalString _)
    · refine lineFeed_notMem_assignment (by decide) ?_
      rw [List.mem_append, not_or]
      exact ⟨by decide, h.log_line⟩
    · decide

/-- The lines of a unit are those of its text. -/
theorem splitOn_text (h : form.Readable) : form.text.splitOn lineFeed = form.lines := by
  apply List.splitOn_intercalate
  · intro line hmem
    rw [lines_eq] at hmem
    simp only [List.map_cons, List.map_nil, List.cons_append, List.nil_append, List.mem_cons,
      List.mem_append, List.mem_map, List.not_mem_nil, or_false] at hmem
    rcases hmem with rfl | rfl | rfl | rfl | ⟨field, hfield, rfl⟩ | rfl | rfl |
      ⟨field, hfield, rfl⟩ | rfl | rfl | rfl | rfl
    · decide
    · exact lineFeed_notMem_assignment (by decide) h.description_line
    · decide
    · decide
    · exact serviceLines_line h field hfield
    · decide
    · decide
    · obtain ⟨hkey, hvalue⟩ := h.fields_line field hfield
      exact lineFeed_notMem_assignment hkey hvalue
    · decide
    · decide
    · decide
    · decide
  · rw [lines_eq]
    exact List.cons_ne_nil _ _

theorem unitLines_text (h : form.Readable) : unitLines form.text = form.unitLinesOf := by
  rw [unitLines, splitOn_text h, linesFrom_lines h]

end Form

/-! ## The values of a unit -/

/-- The last value of a key. -/
def fieldOf (fields : List (JsString × JsString)) (key : JsString) : Option JsString :=
  (fields.reverse.find? (·.1 == key)).map Prod.snd

theorem fieldOf_append (front back : List (JsString × JsString)) (key : JsString) :
    fieldOf (front ++ back) key = (fieldOf back key).or (fieldOf front key) := by
  rw [fieldOf, List.reverse_append, List.find?_append, Option.map_or]
  rfl

theorem fieldOf_cons (k v : JsString) (fields : List (JsString × JsString)) (key : JsString) :
    fieldOf ((k, v) :: fields) key = (fieldOf fields key).or (if k = key then some v else none) := by
  rw [← List.singleton_append, fieldOf_append]
  congr 1
  by_cases h : k = key
  · simp [fieldOf, h]
  · simp [fieldOf, h]

theorem fieldOf_eq_none {key : JsString} (h : key ∉ fields.map Prod.fst) :
    fieldOf fields key = none := by
  rw [fieldOf, Option.map_eq_none_iff, List.find?_eq_none]
  intro field hmem heq
  rw [List.mem_reverse] at hmem
  exact h (List.mem_map.mpr ⟨field, hmem, by simpa using heq⟩)

theorem valueOf_append (front back : List UnitLine) (sectionName key : JsString) :
    valueOf (front ++ back) sectionName key =
      (valueOf back sectionName key).or (valueOf front sectionName key) := by
  rw [valueOf, List.reverse_append, List.find?_append, Option.map_or]
  rfl

/-- The lines of one section hold its fields, and none of another. -/
theorem valueOf_fields (fields : List (JsString × JsString)) (sectionName other key : JsString) :
    valueOf (fields.map fun (key, value) => ⟨sectionName, key, value⟩) other key =
      if sectionName = other then fieldOf fields key else none := by
  rw [valueOf, fieldOf, ← List.map_reverse, List.find?_map]
  by_cases h : sectionName = other
  · rw [if_pos h]
    subst h
    simp only [Function.comp_def, beq_self_eq_true, Bool.true_and, Option.map_map]
  · rw [if_neg h]
    simp only [Function.comp_def, beq_false_of_ne h, Bool.false_and, Option.map_map]
    simp

namespace Form

variable {form : Form}

theorem unitLinesOf_eq (form : Form) : form.unitLinesOf =
    [(lit "Description", form.description)].map (fun (key, value) => ⟨lit "Unit", key, value⟩) ++
      (form.serviceLines.map (fun (key, value) => ⟨lit "Service", key, value⟩) ++
        (form.fields.map (fun (key, value) => ⟨lit "X-Stim", key, value⟩) ++
          [(lit "WantedBy", lit "default.target")].map
            fun (key, value) => ⟨lit "Install", key, value⟩)) := rfl

theorem valueOf_service (form : Form) (key : JsString) :
    valueOf form.unitLinesOf (lit "Service") key = fieldOf form.serviceLines key := by
  rw [unitLinesOf_eq, valueOf_append, valueOf_append, valueOf_append, valueOf_fields,
    valueOf_fields, valueOf_fields, valueOf_fields, if_neg (by decide), if_neg (by decide),
    if_pos rfl, if_neg (by decide)]
  simp

theorem valueOf_stim (form : Form) (key : JsString) :
    valueOf form.unitLinesOf (lit "X-Stim") key = fieldOf form.fields key := by
  rw [unitLinesOf_eq, valueOf_append, valueOf_append, valueOf_append, valueOf_fields,
    valueOf_fields, valueOf_fields, valueOf_fields, if_neg (by decide), if_pos rfl,
    if_neg (by decide), if_neg (by decide)]
  simp

theorem fieldOf_environment_ne {key : JsString} (h : key ≠ lit "Environment")
    (entries : List (JsString × JsString)) :
    fieldOf (entries.map fun (name, value) =>
      (lit "Environment", quoteUnitWord (assignment name value) false)) key = none := by
  apply fieldOf_eq_none
  rw [List.map_map]
  intro hmem
  obtain ⟨entry, -, heq⟩ := List.mem_map.mp hmem
  exact h heq.symm

theorem fieldOf_command (form : Form) : fieldOf form.serviceLines (lit "ExecStart") =
    some ([space].intercalate (form.arguments.map (quoteUnitWord · true))) := by
  have hfields : fieldOf form.serviceFields (lit "ExecStart") = none :=
    fieldOf_eq_none (by
      show lit "ExecStart" ∉ [lit "WorkingDirectory", lit "Restart", lit "RestartSec",
        lit "TimeoutStopSec", lit "StandardOutput", lit "StandardError"]
      decide)
  rw [serviceLines, fieldOf_append, hfields, fieldOf_cons, fieldOf_environment_ne (by decide),
    if_pos rfl]
  rfl

theorem fieldOf_log (form : Form) : fieldOf form.serviceLines (lit "StandardOutput") =
    some (lit "append:" ++ form.log) := by
  have hfields : fieldOf form.serviceFields (lit "StandardOutput") =
      some (lit "append:" ++ form.log) := by
    rw [serviceFields, fieldOf_cons, fieldOf_cons, fieldOf_cons, fieldOf_cons, fieldOf_cons,
      fieldOf_cons, if_neg (by decide), if_pos rfl]
    rfl
  rw [serviceLines, fieldOf_append, hfields]
  rfl

/-! ## The variables of a unit -/

theorem unitVariables_append (front back : List UnitLine) :
    unitVariables (front ++ back) = unitVariables front ++ unitVariables back :=
  List.flatMap_append

/-- A variable is cut at the equals sign behind its name. -/
theorem findIdx?_assignment {name value : JsString} (h : equalsSign ∉ name) :
    (assignment name value).findIdx? (· == equalsSign) = some name.length := by
  have hnone : name.findIdx? (· == equalsSign) = none := by
    rw [List.findIdx?_eq_none_iff]
    intro u hu
    exact beq_false_of_ne fun heq => h (heq ▸ hu)
  rw [assignment, List.findIdx?_append, hnone, List.findIdx?_cons]
  simp

theorem unitWords_singleton (value : JsString) (exec : Bool) :
    unitWords (quoteUnitWord value exec) exec = some [value] := by
  have h := unitWords_quoteUnitWord [value] exec
  rwa [List.map_singleton, List.intercalate_singleton] at h

theorem unitVariables_fields_ne {sectionName : JsString} {fields : List (JsString × JsString)}
    (h : sectionName ≠ lit "Service" ∨ lit "Environment" ∉ fields.map Prod.fst) :
    unitVariables (fields.map fun (key, value) => ⟨sectionName, key, value⟩) = [] := by
  rw [unitVariables, List.flatMap_eq_nil_iff]
  intro line hmem
  obtain ⟨field, hfield, rfl⟩ := List.mem_map.mp hmem
  rw [if_neg]
  rintro ⟨hsection, hkey⟩
  rcases h with hne | hnot
  · exact hne hsection
  · exact hnot (List.mem_map.mpr ⟨field, hfield, hkey⟩)

/-- Every variable with a name is read. -/
theorem unitVariables_environment {entries : List (JsString × JsString)}
    (h : ∀ entry ∈ entries, equalsSign ∉ entry.1) :
    unitVariables (entries.map fun (name, value) =>
      ⟨lit "Service", lit "Environment", quoteUnitWord (assignment name value) false⟩) =
      entries.filter fun entry => !entry.1.isEmpty := by
  induction entries with
  | nil => rfl
  | cons entry entries ih =>
      obtain ⟨name, value⟩ := entry
      have hname := h (name, value) List.mem_cons_self
      have hrest := ih fun other hother => h other (List.mem_cons_of_mem _ hother)
      rw [List.map_cons, unitVariables, List.flatMap_cons, if_pos ⟨rfl, rfl⟩, List.filter_cons]
      simp only [unitWords_singleton, Option.getD_some, List.filterMap_cons, List.filterMap_nil,
        findIdx?_assignment hname]
      rw [unitVariables] at hrest
      rw [hrest]
      cases name with
      | nil => rfl
      | cons u rest =>
          simp only [List.length_cons, List.isEmpty_cons, Bool.not_false, if_true]
          have htake : (assignment (u :: rest) value).take (rest.length + 1) = u :: rest :=
            List.take_left' rfl
          have hdrop : (assignment (u :: rest) value).drop (rest.length + 2) = value := by
            have hsplit : assignment (u :: rest) value = (u :: rest ++ [equalsSign]) ++ value := by
              rw [assignment, List.append_assoc, List.singleton_append]
            rw [hsplit]
            exact List.drop_left' (by simp)
          rw [htake, hdrop]
          rfl

theorem unitVariables_unitLinesOf (h : form.Readable) :
    unitVariables form.unitLinesOf = form.environment.filter fun entry => !entry.1.isEmpty := by
  have hservice : form.serviceLines.map (fun (key, value) => (⟨lit "Service", key, value⟩ : UnitLine)) =
      [(lit "ExecStart", [space].intercalate (form.arguments.map (quoteUnitWord · true)))].map
        (fun (key, value) => ⟨lit "Service", key, value⟩) ++
      (form.environment.map (fun (name, value) =>
        ⟨lit "Service", lit "Environment", quoteUnitWord (assignment name value) false⟩) ++
      form.serviceFields.map fun (key, value) => ⟨lit "Service", key, value⟩) := by
    rw [serviceLines, List.map_append, List.map_cons, List.map_map]
    rfl
  have hfields : lit "Environment" ∉ form.serviceFields.map Prod.fst := by
    show lit "Environment" ∉ [lit "WorkingDirectory", lit "Restart", lit "RestartSec",
      lit "TimeoutStopSec", lit "StandardOutput", lit "StandardError"]
    decide
  rw [unitLinesOf_eq, hservice, unitVariables_append, unitVariables_append, unitVariables_append,
    unitVariables_append, unitVariables_append, unitVariables_environment h.names,
    unitVariables_fields_ne (Or.inl (by decide)),
    unitVariables_fields_ne (Or.inr (by show _ ∉ [lit "ExecStart"]; decide)),
    unitVariables_fields_ne (Or.inr hfields), unitVariables_fields_ne (Or.inl (by decide)),
    unitVariables_fields_ne (Or.inl (by decide))]
  simp

theorem storedVariable_filter (entries : List (JsString × JsString)) {name : JsString}
    (h : name ≠ []) :
    storedVariable (entries.filter fun entry => !entry.1.isEmpty) name =
      storedVariable entries name := by
  rw [storedVariable, storedVariable, ← List.filter_reverse, List.find?_filter]
  congr 3
  funext entry
  by_cases hentry : entry.1 = name
  · simp [hentry, h]
  · simp [hentry]

theorem unescapePercent_double (log : JsString) :
    unescapePercent (log.flatMap fun u => if u = percent then [percent, percent] else [u]) =
      log := by
  have hplain : ∀ {u : UInt16} (rest : JsString), u ≠ percent →
      unescapePercent (u :: rest) = u :: unescapePercent rest := by
    intro u rest hu
    cases rest with
    | nil => rfl
    | cons c rest => rw [unescapePercent, if_neg fun h => hu h.1]
  induction log with
  | nil => rfl
  | cons u log ih =>
      rw [List.flatMap_cons]
      split
      · next hu =>
        rw [List.cons_append, List.cons_append, List.nil_append, unescapePercent,
          if_pos ⟨rfl, rfl⟩, ih, hu]
      · next hu => rw [List.cons_append, List.nil_append, hplain _ hu, ih]

/-- What a unit of the form records. -/
theorem unitJob_text (h : form.Readable) {label : JsString} (hlabel : label ≠ [])
    (hvariable : storedVariable form.environment LABEL_VARIABLE = some label) :
    unitJob form.text = some
      { label
        programArguments := form.arguments
        environment := storedVariable (form.environment.filter fun entry => !entry.1.isEmpty)
        logPath := some (unescapePercent form.log)
        managed := fieldOf form.fields (lit "Managed") = some (lit "true")
        servePort := (fieldOf form.fields (lit "ServePort")).bind fun servePort =>
          if servePort ≠ [] ∧ servePort.all isDigit then some (JsNumber.toNumber servePort)
          else none
        serveCreated := fieldOf form.fields (lit "ServeCreated") = some (lit "true")
        previousScript := (fieldOf form.fields (lit "PreviousScript")).bind fun previous =>
          (unitWords previous false).bind List.head? } := by
  have hlog : (lit "append:" ++ form.log).drop 7 = form.log := List.drop_left' rfl
  rw [← storedVariable_filter _ (by decide)] at hvariable
  unfold unitJob
  simp only [unitLines_text h, valueOf_service, valueOf_stim, fieldOf_command, fieldOf_log,
    unitVariables_unitLinesOf h, Option.bind_some, unitWords_quoteUnitWord, hvariable,
    if_neg hlabel, List.prefix_append, if_true, hlog]

end Form

/-! ## Editing a unit -/

theorem keyOf_assignment (h : Plain key value) :
    keyOf (trimUnits (assignment key value)) = key := by
  rw [trimUnits_of_trimmed (trimmed_assignment h), keyOf, Form.findIdx?_assignment h.no_equals,
    Option.getD_some]
  have htake : (assignment key value).take key.length = key := List.take_left
  rw [htake, trimUnits_of_trimmed h.key_trimmed]

theorem headerOf_assignment (h : Plain key value) :
    headerOf (trimUnits (assignment key value)) = none := by
  rw [trimUnits_of_trimmed (trimmed_assignment h)]
  obtain ⟨u, rest, hcons⟩ := List.exists_cons_of_ne_nil h.ne_nil
  have hu := (h.first u (by rw [hcons]; rfl)).1
  rw [assignment, hcons, List.cons_append]
  simp [headerOf, hu]

namespace Change

variable (change : Change)

/-- Whether a change replaces the lines of a key. -/
def replaces (sectionName key : JsString) : Bool :=
  decide (sectionName = lit "Service" ∧ key = lit "ExecStart" ∧ change.command.isSome) ||
    decide (sectionName = lit "X-Stim" ∧ change.has key)

theorem isPlainKey_of_has {key : JsString} (h : change.has key = true) : isPlainKey key = true := by
  have hprototype : ∀ name ∈ prototypeKeys, isPlainKey name = true := by decide
  rw [has, Bool.or_eq_true, List.contains_iff_mem, List.contains_iff_mem] at h
  rcases h with hmem | hmem
  · cases change with
    | arguments programArguments previousScript =>
        rw [List.mem_singleton.mp hmem]
        show isPlainKey (lit "PreviousScript") = true
        decide
    | serve record =>
        simp only [replaced, serveFields, List.map_cons, List.map_nil, List.mem_cons,
          List.not_mem_nil, or_false] at hmem
        rcases hmem with rfl | rfl <;> decide
  · exact hprototype key hmem

theorem has_nil : change.has [] = false := by
  cases h : change.has [] with
  | false => rfl
  | true => cases change.isPlainKey_of_has h

theorem replaced_plain : ∀ field ∈ change.replaced, Plain field.1 field.2 := by
  intro field hmem
  cases change with
  | arguments programArguments previousScript =>
      rw [List.mem_singleton.mp hmem]
      exact plain_of_isPlainKey (by dsimp only; decide) (trimmed_quote _ _)
  | serve record =>
      simp only [replaced, serveFields, List.mem_cons, List.not_mem_nil, or_false] at hmem
      rcases hmem with rfl | rfl <;> dsimp only
      · exact plain_of_isPlainKey (by decide) (JsNumber.trimmed_decimalString _)
      · refine plain_of_isPlainKey (by decide) (trimmed_of_isTrimmed ?_)
        cases record.created <;> decide

theorem replaced_line : ∀ field ∈ change.replaced, lineFeed ∉ field.1 ∧ lineFeed ∉ field.2 := by
  intro field hmem
  cases change with
  | arguments programArguments previousScript =>
      rw [List.mem_singleton.mp hmem]
      exact ⟨by dsimp only; decide, lineFeed_notMem_quoteUnitWord _ _⟩
  | serve record =>
      simp only [replaced, serveFields, List.mem_cons, List.not_mem_nil, or_false] at hmem
      rcases hmem with rfl | rfl <;> dsimp only
      · exact ⟨by decide, Form.lineFeed_notMem_decimalString _⟩
      · cases record.created <;> decide

theorem has_replaced : ∀ field ∈ change.replaced, change.has field.1 = true := by
  intro field hmem
  rw [has, Bool.or_eq_true, List.contains_iff_mem]
  exact Or.inl (List.mem_map_of_mem hmem)

end Change

variable (change : Change)

/-- The lines of a section are kept, less those of `[X-Stim]` that the change replaces. -/
theorem editLines_fields (sectionName : JsString) (h : ∀ field ∈ fields, Plain field.1 field.2)
    (hcommand : sectionName ≠ lit "Service" ∨ lit "ExecStart" ∉ fields.map Prod.fst)
    (rest : List JsString) :
    editLines change sectionName
        (fields.map (fun (key, value) => assignment key value) ++ rest) =
      (fields.filter fun field => !(decide (sectionName = lit "X-Stim") && change.has field.1)).map
        (fun (key, value) => assignment key value) ++ editLines change sectionName rest := by
  induction fields with
  | nil => rfl
  | cons field fields ih =>
      have hfield := h field List.mem_cons_self
      have hrest := ih (fun other hother => h other (List.mem_cons_of_mem _ hother))
        (hcommand.imp_right fun hnot hmem => hnot (List.mem_cons_of_mem _ hmem))
      have hnot : ¬ (sectionName = lit "Service" ∧ field.1 = lit "ExecStart") := by
        rintro ⟨hsection, hkey⟩
        rcases hcommand with hne | hnot
        · exact hne hsection
        · exact hnot (by rw [← hkey]; exact List.mem_cons_self)
      rw [List.map_cons, List.cons_append, editLines]
      simp only [keyOf_assignment hfield, headerOf_assignment hfield, Option.getD_none,
        Option.isSome_none, Bool.false_eq_true, false_and, if_false, List.nil_append]
      rw [if_neg hnot]
      simp only
      rw [List.filter_cons, hrest]
      by_cases hreplaced : sectionName = lit "X-Stim" ∧ change.has field.1 = true
      · rw [if_pos hreplaced, if_neg (by simp [hreplaced.1, hreplaced.2])]
      · rw [if_neg hreplaced, if_pos (by simpa [imp_iff_not_or] using hreplaced)]
        rfl

/-- The lines of any other section are kept. -/
theorem editLines_kept (sectionName : JsString) (h : ∀ field ∈ fields, Plain field.1 field.2)
    (hstim : sectionName ≠ lit "X-Stim")
    (hcommand : sectionName ≠ lit "Service" ∨ lit "ExecStart" ∉ fields.map Prod.fst)
    (rest : List JsString) :
    editLines change sectionName
        (fields.map (fun (key, value) => assignment key value) ++ rest) =
      fields.map (fun (key, value) => assignment key value) ++
        editLines change sectionName rest := by
  rw [editLines_fields change sectionName h hcommand, List.filter_eq_self.mpr]
  intro field _
  rw [decide_eq_false hstim]
  rfl

theorem editLines_header {line : JsString} (name : JsString)
    (hheader : headerOf (trimUnits line) = some name) (hkey : keyOf (trimUnits line) = [])
    (sectionName : JsString) (rest : List JsString) :
    editLines change sectionName (line :: rest) =
      line :: ((if name = lit "X-Stim" then
        change.replaced.map fun (name, value) => assignment name value else []) ++
        editLines change name rest) := by
  rw [editLines]
  simp only [hheader, hkey, Option.getD_some, Option.isSome_some, true_and, change.has_nil,
    Bool.false_eq_true, and_false, if_false]
  rw [if_neg (by rintro ⟨-, h⟩; cases h)]

theorem editLines_blank (sectionName : JsString) (rest : List JsString) :
    editLines change sectionName ([] :: rest) = [] :: editLines change sectionName rest := by
  have hkey : keyOf (trimUnits []) = [] := rfl
  have hheader : headerOf (trimUnits []) = none := rfl
  rw [editLines]
  simp only [hheader, hkey, Option.getD_none, Option.isSome_none, change.has_nil,
    Bool.false_eq_true, and_false, false_and, if_false, List.nil_append]
  rw [if_neg (by rintro ⟨-, h⟩; cases h)]

namespace Form

variable {form : Form}

/-- The unit that a change makes of a unit. -/
def edit (form : Form) (change : Change) : Form :=
  { form with
    arguments :=
      match change with
      | .arguments programArguments _ => programArguments
      | .serve _ => form.arguments
    fields := change.replaced ++ form.fields.filter fun field => !change.has field.1 }

theorem readable_edit (h : form.Readable) : (form.edit change).Readable := by
  refine ⟨h.description_trimmed, h.description_line, h.names, h.log_end, h.log_line, ?_, ?_⟩
  · intro field hmem
    rcases List.mem_append.mp hmem with hmem | hmem
    · exact change.replaced_plain field hmem
    · exact h.fields_plain field (List.mem_filter.mp hmem).1
  · intro field hmem
    rcases List.mem_append.mp hmem with hmem | hmem
    · exact change.replaced_line field hmem
    · exact h.fields_line field (List.mem_filter.mp hmem).1

/-- The lines behind the command of a unit. -/
def otherServiceLines (form : Form) : List (JsString × JsString) :=
  form.environment.map (fun (name, value) =>
    (lit "Environment", quoteUnitWord (assignment name value) false)) ++ form.serviceFields

theorem editLines_serviceLines (h : form.Readable) (rest : List JsString) :
    editLines change (lit "Service")
        (form.serviceLines.map (fun (key, value) => assignment key value) ++ rest) =
      (form.edit change).serviceLines.map (fun (key, value) => assignment key value) ++
        editLines change (lit "Service") rest := by
  have hplain : Plain (lit "ExecStart")
      ([space].intercalate (form.arguments.map (quoteUnitWord · true))) :=
    serviceLines_plain h _ List.mem_cons_self
  have hothers : ∀ field ∈ form.otherServiceLines, Plain field.1 field.2 := fun field hmem =>
    serviceLines_plain h field (List.mem_cons_of_mem _ hmem)
  have hcommand : lit "ExecStart" ∉ form.otherServiceLines.map Prod.fst := by
    rw [otherServiceLines, List.map_append, List.mem_append, List.map_map]
    rintro (hmem | hmem)
    · obtain ⟨entry, -, heq⟩ := List.mem_map.mp hmem
      revert heq
      show lit "Environment" = lit "ExecStart" → False
      decide
    · revert hmem
      show ¬ lit "ExecStart" ∈ [lit "WorkingDirectory", lit "Restart", lit "RestartSec",
        lit "TimeoutStopSec", lit "StandardOutput", lit "StandardError"]
      decide
  have hkept := editLines_kept change (lit "Service") hothers (by decide) (Or.inr hcommand) rest
  have hcons : form.serviceLines.map (fun (key, value) => assignment key value) ++ rest =
      assignment (lit "ExecStart")
        ([space].intercalate (form.arguments.map (quoteUnitWord · true))) ::
        (form.otherServiceLines.map (fun (key, value) => assignment key value) ++ rest) := rfl
  rw [hcons, editLines]
  simp only [keyOf_assignment hplain, headerOf_assignment hplain, Option.getD_none,
    Option.isSome_none, Bool.false_eq_true, false_and, if_false, List.nil_append, and_self,
    if_true, hkept]
  cases change with
  | arguments programArguments previousScript => rfl
  | serve record =>
      have hsection : ¬ (lit "Service" = lit "X-Stim" ∧
          (Change.serve record).has (lit "ExecStart") = true) := fun h => by
        have hne : lit "Service" ≠ lit "X-Stim" := by decide
        exact hne h.1
      simp only [Change.command]
      rw [if_neg hsection]
      rfl

/-- An edit of a unit of the form is one of the form. -/
theorem editLines_lines (h : form.Readable) :
    editLines change [] form.lines = (form.edit change).lines := by
  have hdescription : ∀ field ∈ [(lit "Description", form.description)],
      Plain field.1 field.2 := by
    intro field hmem
    rw [List.mem_singleton.mp hmem]
    exact plain_of_isPlainKey (by dsimp only; decide) h.description_trimmed
  have hwanted : ∀ field ∈ [(lit "WantedBy", lit "default.target")], Plain field.1 field.2 := by
    intro field hmem
    rw [List.mem_singleton.mp hmem]
    exact plain_of_isPlainKey (by decide) (trimmed_of_isTrimmed (by decide))
  rw [lines_eq, lines_eq, List.cons_append,
    editLines_header change (lit "Unit") (by decide) (by decide), if_neg (by decide),
    List.nil_append, editLines_kept change _ hdescription (by decide) (Or.inl (by decide)),
    editLines_blank, editLines_header change (lit "Service") (by decide) (by decide),
    if_neg (by decide), List.nil_append, editLines_serviceLines change h, editLines_blank,
    editLines_header change (lit "X-Stim") (by decide) (by decide), if_pos rfl,
    editLines_fields change _ h.fields_plain (Or.inl (by decide)), editLines_blank,
    editLines_header change (lit "Install") (by decide) (by decide), if_neg (by decide),
    List.nil_append, editLines_kept change _ hwanted (by decide) (Or.inl (by decide)),
    editLines_blank]
  simp only [edit, List.map_append, List.append_assoc, decide_true, Bool.true_and]
  rfl

/-- An edit of a unit's text is the text of the edited unit. -/
theorem editUnit_text (h : form.Readable) :
    editUnit form.text change = (form.edit change).text := by
  rw [editUnit, splitOn_text h, editLines_lines change h]
  rfl

end Form

end Stim.ServiceUnit
